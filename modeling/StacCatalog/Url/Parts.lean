import StacCatalog.Fault

/-!
# URLs taken apart into their parts, and put together again
-/

namespace StacCatalog.Url

/-- The parts of a URL. -/
structure Parts where
  scheme : List Char
  host : List Char
  path : List Char
  params : List Char
  query : List Char
  fragment : List Char
  deriving DecidableEq, Repr

/-- The text up to the first of some characters, and the rest from it on. -/
def splitAtAny (stops : List Char) (cs : List Char) : List Char × List Char :=
  (cs.takeWhile (!stops.contains ·), cs.dropWhile (!stops.contains ·))

/-- The text before the first occurrence of a character and the text after it. -/
def cut (stop : Char) (cs : List Char) : List Char × Option (List Char) :=
  match cs.dropWhile (· != stop) with
  | [] => (cs, none)
  | _ :: after => (cs.takeWhile (· != stop), some after)

/-- The schemes whose relative references are resolved. -/
def relativeSchemes : List String :=
  ["", "ftp", "http", "gopher", "nntp", "imap", "wais", "file", "https", "shttp",
    "mms", "prospero", "rtsp",
   "rtsps", "rtspu", "sftp", "svn", "svn+ssh", "ws", "wss"]

/-- The schemes whose URLs have a host. -/
def hostSchemes : List String :=
  ["", "ftp", "http", "gopher", "nntp", "telnet", "imap", "wais", "file", "mms",
    "https", "shttp", "snews",
   "prospero", "rtsp", "rtsps", "rtspu", "rsync", "svn", "svn+ssh", "sftp", "nfs",
     "git", "git+ssh", "ws",
   "wss"]

/-- The schemes whose last path segment may have parameters. -/
def paramSchemes : List String :=
  ["", "ftp", "hdl", "prospero", "http", "imap", "https", "shttp", "rtsp", "rtsps",
    "rtspu", "sip", "sips",
   "mms", "sftp", "tel"]

/-! ### Hosts -/

/-- A part of an address: one to four hexadecimal digits. -/
def isHextet (cs : List Char) : Bool :=
  1 ≤ cs.length && cs.length ≤ 4 && cs.all fun c => (Text.hexValue? c).isSome

/-- A number of an address with points: at most 255, without leading zeros. -/
def isOctet (cs : List Char) : Bool :=
  1 ≤ cs.length && cs.length ≤ 3 && cs.all Char.isDigit &&
    (cs.length == 1 || cs.head? != some '0') &&
    cs.foldl (fun n c => n * 10 + (c.toNat - 48)) 0 ≤ 255

/-- Whether a text is an address with points. -/
def isDotted (cs : List Char) : Bool :=
  let parts := cs.splitOn '.'
  parts.length == 4 && parts.all isOctet

/-- The parts of an address with colons, one with points at its end counting as two. -/
def addressParts (cs : List Char) : Option (List (List Char)) :=
  let parts := cs.splitOn ':'
  let last := parts.getLast?.getD []
  if parts.length < 3 then none
  else if last.contains '.' then
    if isDotted last then some (parts.dropLast ++ [['0'], ['0']]) else none
  else some parts

/-- Whether a text is an address with colons. One run of parts may be left out. -/
def isAddress (cs : List Char) : Bool :=
  let (address, scope) := cut '%' cs
  let scopeOk := match scope with
    | none => true
    | some s => !s.isEmpty && !s.contains '%'
  match addressParts address with
  | none => false
  | some parts =>
    let inner := (parts.drop 1).dropLast
    let gaps := (inner.filter List.isEmpty).length
    let given := parts.filter fun p => !p.isEmpty
    let startsOpen := (parts.head?.getD []).isEmpty
    let endsOpen := (parts.getLast?.getD []).isEmpty
    let gapFirst := (inner.head?.getD ['x']).isEmpty
    let gapLast := (inner.getLast?.getD ['x']).isEmpty
    scopeOk && !address.contains '/' && parts.length ≤ 9 && given.all isHextet &&
      (if gaps == 0 then parts.length == 8 && !startsOpen && !endsOpen
       else gaps == 1 && given.length ≤ 7 && (!startsOpen || gapFirst) && (!endsOpen || gapLast))

/-- Whether the text between the brackets of a host can stand there: an address with colons, or one
of a later version. -/
def isBracketed (cs : List Char) : Bool :=
  match cs with
  | 'v' :: rest =>
    let digits := rest.takeWhile fun c => (Text.hexValue? c).isSome
    match rest.drop digits.length with
    | '.' :: tail => !digits.isEmpty && !tail.isEmpty && !tail.contains '\n'
    | _ => false
  | _ => isAddress cs

/-- Characters that stand for a delimiter when a host is normalised. -/
def disguised : List Nat :=
  [0x2047, 0x2048, 0x2049, 0x2100, 0x2101, 0x2105, 0x2106, 0x2a74, 0xfe13, 0xfe16,
    0xfe55, 0xfe56, 0xfe5f,
   0xfe6b, 0xff03, 0xff0f, 0xff1a, 0xff1f, 0xff20]

/-- Whether a host can stand in a URL: its brackets hold an address, and nothing is disguised. -/
def hostOk (host : List Char) : Bool :=
  let opens := host.contains '['
  let closes := host.contains ']'
  (opens == closes) && !host.any (fun c => disguised.contains c.toNat) &&
    (!opens || isBracketed (((cut '[' host).2.getD []).takeWhile (· != ']')))

/-! ### Reading and writing -/

/-- The scheme and the rest after its colon, if there is a scheme. -/
def readScheme (cs : List Char) : Option (List Char × List Char) :=
  match cut ':' cs with
  | (c :: name, some rest) =>
    if c.isAlpha && (c :: name).all (fun c => c.isAlphanum || c == '+' || c == '-' || c == '.') then
      some ((c :: name).map Char.toLower, rest)
    else none
  | _ => none

/-- A part with its mark in front; an empty part has none. -/
def behind (mark : Char) (part : List Char) : List Char :=
  if part.isEmpty then [] else mark :: part

/-- What follows the last slash of a path. -/
def lastSegment (cs : List Char) : List Char :=
  (cs.reverse.takeWhile (· != '/')).reverse

/-- The path and the parameters of its last segment. -/
def splitParams (cs : List Char) : List Char × List Char :=
  match cut ';' (lastSegment cs) with
  | (_, none) => (cs, [])
  | (_, some params) => (cs.take (cs.length - params.length - 1), params)

/-- A path with its parameters behind it. -/
def withParams (path params : List Char) : List Char :=
  path ++ behind ';' params

/-- A URL without what is dropped before it is taken apart. -/
def tidy (url : List Char) : List Char :=
  (url.dropWhile fun c => c.toNat ≤ 32).filter fun c => c != '\t' && c != '\r' && c != '\n'

/-- The host behind two slashes, and what stands behind it. -/
def splitHost (cs : List Char) : List Char × List Char :=
  match cs with
  | '/' :: '/' :: rest => splitAtAny ['/', '?', '#'] rest
  | rest => ([], rest)

/-- The parts of a URL whose scheme and host are known, from what stands behind the host. -/
def partsBehind (scheme host cs : List Char) : Parts :=
  let (cs, fragment) := cut '#' cs
  let (cs, query) := cut '?' cs
  let (path, params) := if paramSchemes.contains (String.ofList scheme) then splitParams cs
      else (cs, [])
  ⟨scheme, host, path, params, query.getD [], fragment.getD []⟩

/-- Takes a URL apart; a URL without a scheme gets the given one. -/
def Parts.read (scheme url : List Char) : Outcome Parts :=
  let read := (readScheme (tidy url)).getD (scheme, tidy url)
  let host := splitHost read.2
  if !hostOk host.1 then .error (.invalid "Invalid IPv6 URL")
  else .ok (partsBehind read.1 host.1 host.2)

/-- Puts a URL together; empty parts leave no mark. -/
def Parts.write (p : Parts) : List Char :=
  let path := withParams p.path p.params
  let hasHost := !p.host.isEmpty ||
    (!p.scheme.isEmpty && hostSchemes.contains (String.ofList p.scheme) &&
      path.take 2 != ['/', '/'])
  let path := if hasHost then
      '/' :: '/' :: p.host ++ (if path.isEmpty || path.head? == some '/' then path else '/' :: path)
    else path
  (if p.scheme.isEmpty then path else p.scheme ++ ':' :: path) ++ behind '?' p.query ++
    behind '#' p.fragment

end StacCatalog.Url
