import Conveyor.Files.Tree

/-!
Real places of paths. Components that do not exist are kept as they are, and double dots after them
take them away; a link inside its own target is left as it stands.
-/

namespace Conveyor

namespace FileTree

/-- The places of the links that are not under resolution. -/
def closedLinks (t : FileTree) (opened : List Location) : List Location :=
  (t.entries.filterMap fun | (l, .link _) => some l | _ => none).filter fun l => !opened.contains l

theorem closedLinks_lt (t : FileTree) (opened : List Location) (l : Location) (target : String)
    (hlink : t.entryAt? l = some (.link target)) (hnew : opened.contains l = false) :
    (t.closedLinks (l :: opened)).length < (t.closedLinks opened).length := by
  have hsub : t.closedLinks (l :: opened) = (t.closedLinks opened).filter fun x => !(x == l) := by
    simp only [closedLinks, List.filter_filter]
    congr 1
    funext x
    by_cases h : x = l <;> simp [h]
  have hmem : ∀ entries : Table Location Entry, entries.get? l = some (.link target) →
      l ∈ entries.filterMap fun | (l, .link _) => some l | _ => none := by
    intro entries h
    induction entries with
    | nil => simp [Table.get?] at h
    | cons e rest ih =>
        obtain ⟨k, v⟩ := e
        simp only [Table.get?] at h
        split at h
        · rename_i hk
          cases h
          simp [eq_of_beq hk]
        · exact List.mem_filterMap.2 <| by
            obtain ⟨a, ha, hb⟩ := List.mem_filterMap.1 (ih h)
            exact ⟨a, List.mem_cons_of_mem _ ha, hb⟩
  have hroot : l ≠ [] := by
    intro h
    simp [entryAt?, h] at hlink
  have hin : l ∈ t.closedLinks opened := by
    simp only [entryAt?, hroot, if_false] at hlink
    exact List.mem_filter.2 ⟨hmem _ hlink, by simpa using hnew⟩
  rw [hsub]
  exact List.length_filter_lt_length_iff_exists.2 ⟨l, hin, by simp⟩

/-- Drops components from the end for double dots. -/
def foldDots (place : Location) : List String → Location
  | [] => place
  | c :: rest =>
    if c = ".." then foldDots place.parent rest
    else if c = "" ∨ c = "." then foldDots place rest
    else foldDots (place ++ [c]) rest

/-- Resolves components from a real place; `opened` holds the links under resolution. The answer
says whether all links could be resolved. -/
def resolveFrom (t : FileTree) (opened : List Location) (place : Location) :
    List String → Location × Bool
  | [] => (place, true)
  | c :: rest =>
    if c = "" ∨ c = "." then resolveFrom t opened place rest
    else if c = ".." then resolveFrom t opened place.parent rest
    else
      let here := place ++ [c]
      match _hlink : t.entryAt? here with
      | some (.link target) =>
        if _hopen : opened.contains here = true then (foldDots here rest, false)
        else
          match resolveFrom t (here :: opened) (linkStart place target) (pathParts target) with
          | (real, true) => resolveFrom t opened real rest
          | (real, false) => (foldDots real rest, false)
      | _ => resolveFrom t opened here rest
termination_by parts => ((t.closedLinks opened).length, parts.length)
decreasing_by
  all_goals first
    | exact Prod.Lex.left _ _ (closedLinks_lt t opened here target _hlink (by simpa using _hopen))
    | exact Prod.Lex.right _ (by simp)

/-- The real place of a path. A path that ends in a loop of links has none. -/
def resolve (t : FileTree) (l : Location) : Except Fault Location :=
  if l.any fun c => c.toList.contains '\x00' then .error .nulInPath
  else
    let real := (t.resolveFrom [] [] l).1
    match t.follow real with
    | .error .linkLoop => .error (.linkLoop (Location.text real))
    | _ => .ok real

end FileTree

end Conveyor
