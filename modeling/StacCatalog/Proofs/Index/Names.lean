import Mathlib.Data.List.DropRight
import StacCatalog.Index.Naming
import StacCatalog.Proofs.Json.Access
import StacCatalog.Proofs.Text.Utf8

/-!
# The names of indices tell collections apart
-/

namespace StacCatalog

open List

variable {byte : Nat}

namespace Text

/-! ### Digits -/

def bytesOfHex? : List Char → Option (List Nat)
  | [] => some []
  | [_] => none
  | high :: low :: rest => do
    return ((← hexValue? high) * 16 + (← hexValue? low)) :: (← bytesOfHex? rest)

def ofUtf8Hex? (digits : List Char) : Option String := do
  return String.ofList (← decode? (← bytesOfHex? digits))

theorem hexValue?_hexDigit {a : Nat} (h : a < 16) : hexValue? (hexDigit a) = some a := by
  have hall : ∀ a : Fin 16, hexValue? (hexDigit a) = some a.val := by decide
  exact hall ⟨a, h⟩

theorem hexDigit_ne_underscore {a : Nat} (ha : a < 16) : hexDigit a ≠ '_' := by
  have hall : ∀ a : Fin 16, hexDigit a ≠ '_' := by decide
  exact hall ⟨a, ha⟩

theorem bytesOfHex?_flatMap_hexByte {bytes : List Nat} (h : ∀ byte ∈ bytes, byte < 256) :
    bytesOfHex? (bytes.flatMap hexByte) = some bytes := by
  induction bytes with
  | nil => rfl
  | cons byte bytes ih =>
    have hbyte : byte / 16 % 16 * 16 + byte % 16 = byte := by
      have hlt := h byte mem_cons_self
      omega
    rw [flatMap_cons, hexByte, cons_append, singleton_append, bytesOfHex?,
      hexValue?_hexDigit (Nat.mod_lt _ (by decide)), hexValue?_hexDigit (Nat.mod_lt _ (by decide)),
      ih fun b hb => h b (mem_cons_of_mem _ hb)]
    show some ((byte / 16 % 16 * 16 + byte % 16) :: bytes) = _
    rw [hbyte]

theorem ofUtf8Hex?_utf8Hex (s : String) : ofUtf8Hex? (utf8Hex s).toList = some s := by
  unfold ofUtf8Hex? utf8Hex
  rw [String.toList_ofList, bytesOfHex?_flatMap_hexByte fun _ => lt_of_mem_utf8]
  show (decode? (utf8 s) >>= fun cs => pure (String.ofList cs)) = _
  rw [decode?_utf8]
  exact congrArg some String.ofList_toList

theorem underscore_notMem_utf8Hex (s : String) : '_' ∉ (utf8Hex s).toList := by
  intro h
  rw [utf8Hex, String.toList_ofList] at h
  obtain ⟨byte, -, hbyte⟩ := mem_flatMap.mp h
  simp only [hexByte, mem_cons, not_mem_nil, or_false] at hbyte
  rcases hbyte with hhigh | hlow
  · exact hexDigit_ne_underscore (Nat.mod_lt _ (by decide)) hhigh.symm
  · exact hexDigit_ne_underscore (Nat.mod_lt _ (by decide)) hlow.symm

end Text

/-! ### Names -/

theorem rtakeWhile_append_cons {α : Type} [DecidableEq α] {mark : α} {xs : List α} (h : mark ∉ xs)
    (front : List α) : (front ++ mark :: xs).rtakeWhile (· ≠ mark) = xs := by
  have hall : ∀ x ∈ xs.reverse, decide (x ≠ mark) = true := by
    intro x hx
    rw [decide_eq_true_eq]
    rintro rfl
    exact h (mem_reverse.mp hx)
  unfold rtakeWhile
  rw [reverse_append, reverse_cons, append_assoc, takeWhile_append_of_pos hall,
    singleton_append, takeWhile_cons_of_neg (by simp), append_nil, reverse_reverse]

namespace Naming

def collectionOf? (name : String) : Option String :=
  Text.ofUtf8Hex? (name.toList.rtakeWhile (· ≠ '_'))

theorem collectionOf?_indexOf (n : Naming) (id : String) :
    collectionOf? (n.indexOf id) = some id := by
  unfold collectionOf? indexOf
  rw [String.toList_append, String.toList_append, append_assoc]
  show Text.ofUtf8Hex?
    (rtakeWhile _ ((n.items ++ Text.lower (clean id)).toList ++ '_' :: (Text.utf8Hex id).toList)) =
      _
  rw [rtakeWhile_append_cons (Text.underscore_notMem_utf8Hex id), Text.ofUtf8Hex?_utf8Hex]

theorem indexOf_injective (n : Naming) : Function.Injective n.indexOf := by
  intro a b h
  refine Option.some.inj ?_
  rw [← n.collectionOf?_indexOf a, h, n.collectionOf?_indexOf b]

theorem mapM_aliasFor (n : Naming) (ids : List String) :
    (ids.map Json.str).mapM n.aliasFor = .ok (ids.map n.aliasOf) :=
  Outcome.mapM_map_ok fun _ _ => rfl

theorem indexFor_eq_ok_iff {n : Naming} {id : Json} {name : String} :
    n.indexFor id = .ok name ↔ ∃ text, id = .str text ∧ n.indexOf text = name := by
  cases id with
  | str text =>
    constructor
    · intro h
      exact ⟨text, rfl, Except.ok.inj h⟩
    · rintro ⟨_, h, hname⟩
      cases h
      exact congrArg Except.ok hname
  | _ => exact iff_of_false nofun nofun

/-- **The id of a collection is read back** from the name of its index. No other id has that name,
and no naming that begins its names otherwise gives it. -/
theorem indexFor_reads_back (n : Naming) (id : String) :
    ∃ name, n.indexFor (.str id) = .ok name ∧ collectionOf? name = some id ∧
      ∀ (m : Naming) (other : Json),
        m.indexFor other = .ok name ↔ m.items = n.items ∧ other = .str id := by
  refine ⟨n.indexOf id, rfl, n.collectionOf?_indexOf id, fun m other => ?_⟩
  rw [indexFor_eq_ok_iff]
  constructor
  · rintro ⟨text, rfl, hname⟩
    have hid : text = id := by
      refine Option.some.inj ?_
      rw [← m.collectionOf?_indexOf text, hname, n.collectionOf?_indexOf]
    subst hid
    refine ⟨?_, rfl⟩
    unfold indexOf at hname
    simpa [String.append_assoc] using hname
  · rintro ⟨hitems, rfl⟩
    exact ⟨id, rfl, by rw [indexOf, indexOf, hitems]⟩

end Naming

end StacCatalog
