import TreeSync.Text

/-!
# TreeSync.Text.Lines

The lines of a text.  A line ends with a line feed, or with a carriage return
and a line feed; an unfinished last line counts too.
-/

namespace TreeSync.Text

/-- A line without the carriage return of its ending. -/
def dropReturn (line : Text) : Text :=
  if line.getLast? = some '\r' then line.dropLast else line

/-- The lines of `t`, without their endings.  A carriage return belongs to an
ending only when a line feed follows it. -/
def lines (t : Text) : List Text :=
  let ps := pieces '\n' t
  let finished := ps.dropLast.map dropReturn
  match ps.getLast? with
  | some (c :: r) => finished ++ [c :: r]
  | _ => finished

@[simp] theorem lines_nil : lines [] = [] := rfl

/-- Lines that are finished stay what they are when more lines follow. -/
theorem lines_append (a b : Text) :
    lines (a ++ '\n' :: b) = (pieces '\n' a).map dropReturn ++ lines b := by
  have hne := pieces_ne_nil '\n' b
  -- The last piece of the whole is the last piece of what follows.
  have hlast : (pieces '\n' a ++ pieces '\n' b).getLast? = (pieces '\n' b).getLast? := by
    rw [List.getLast?_append, List.getLast?_eq_some_getLast hne, Option.some_or]
  rw [lines, lines, pieces_append, hlast, List.dropLast_append_of_ne_nil hne, List.map_append]
  split
  · rw [List.append_assoc]
  · rfl

theorem lines_concat (a : Text) : lines (a ++ ['\n']) = (pieces '\n' a).map dropReturn := by
  rw [lines_append, lines_nil, List.append_nil]

end TreeSync.Text
