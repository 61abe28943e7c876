import StacCatalog.Fault

/-!
# Shapes of requests: bounding boxes and the polygons they stand for
-/

namespace StacCatalog.Geometry

/-- The coordinates of the polygon around a bounding box, given by its lower left and upper right
corner: `bbox2polygon`. -/
def boxPolygon (x0 y0 x1 y1 : Json) : Json :=
  .arr [.arr [.arr [x0, y0], .arr [x1, y0], .arr [x1, y1], .arr [x0, y1], .arr [x0, y0]]]

/-- The polygon around a box of four coordinates. -/
def polygonOf (box : List Json) : Outcome Json :=
  match box with
  | [x0, y0, x1, y1] => .ok (boxPolygon x0 y0 x1 y1)
  | _ => .error (.wrongType "a bounding box has four coordinates")

end StacCatalog.Geometry
