import Ucore.Fs.Sfs.Dir

/-!
# Path strings

`sfs_lookup` and `sfs_lookup_parent` take a string apart as they go. A string is
the list of the characters before its zero. The loops do on a string what
`lookupLoop` and `lookupParentLoop` do on its components.
-/

namespace Ucore.Fs

open Lib.Cmd

/-- `sfs_lookup_subpath`: the first component, and the string behind the slashes
after it unless that is empty. -/
def lookupSubpath (path : List Char) : Name × Option (List Char) :=
  let rest := (path.dropWhile (· ≠ '/')).dropWhile (· = '/')
  (path.takeWhile (· ≠ '/'), if rest = [] then none else some rest)

def components : Nat → List Char → List Name
  | 0, _ => []
  | n + 1, path =>
    match lookupSubpath path with
    | (name, some sub) => name :: components n sub
    | (name, none) => [name]

def firstIsDir (i : Nat) (again : Bool) : FsM Bool := if again then pure true else isDir i

/-- The loop of `sfs_lookup`; `again` is a jump to `next`. -/
def lookupChars : Nat → Nat → List Char → Bool → FsM Nat
  | 0, _, _, _ => stop .hang
  | n + 1, i, path, again => do
    let dir ← firstIsDir i again
    if dir = false then thenRefDec i (fail .notdir)
    else
      match lookupSubpath path with
      | (name, some sub) =>
        if name = dot then lookupChars n i sub true
        else do
          let j ← thenRefDec i (lookupStep i name)
          lookupChars n j sub false
      | (name, none) => if name = dot then pure i else thenRefDec i (lookupStep i name)

/-- The loop of `sfs_lookup_parent`. -/
def lookupParentChars : Nat → Nat → List Char → Bool → FsM (Nat × Name)
  | 0, _, _, _ => stop .hang
  | n + 1, i, path, again => do
    let dir ← firstIsDir i again
    if dir = false then thenRefDec i (fail .notdir)
    else
      match lookupSubpath path with
      | (name, some sub) =>
        if name = dot then lookupParentChars n i sub true
        else do
          let j ← thenRefDec i (lookupStep i name)
          lookupParentChars n j sub false
      | (name, none) => pure (i, name)

def Relative (path : List Char) : Prop := path ≠ [] ∧ path.head? ≠ some '/'

instance (path : List Char) : Decidable (Relative path) := inferInstanceAs (Decidable (_ ∧ _))

def sfsLookupChars (i : Nat) (path : List Char) : FsM Nat := do
  check (Relative path) .assertion
  refInc i
  lookupChars (path.length + 1) i path false

def sfsLookupParentChars (i : Nat) (path : List Char) : FsM (Nat × Name) := do
  check (Relative path) .assertion
  refInc i
  lookupParentChars (path.length + 1) i path false

lemma relative_dropWhile (path : List Char) (h : path.dropWhile (· = '/') ≠ []) :
    Relative (path.dropWhile (· = '/')) := by
  grind [List.head?_eq_some_head, List.head_dropWhile_not, Relative]

lemma lookupSubpath_some {sub : List Char} (h : lookupSubpath path = (name, some sub)) (hpath : Relative path) :
    Relative sub ∧ sub.length < path.length := by
  obtain ⟨c, rest, rfl⟩ := List.exists_cons_of_ne_nil hpath.1
  have hc : c ≠ '/' := fun heq => hpath.2 (by rw [heq]; rfl)
  grind [List.dropWhile_cons_of_pos, lookupSubpath, List.dropWhile_sublist, relative_dropWhile]

lemma isDir_eq (h : isDir i s = .ok (.ok b, s')) : s' = s := by
  have hsat : Sat (fun _ => True) (isDir i) s (fun _ s' => s' = s) (fun _ _ => True) := by
    rw [isDir, sat_bind, sin, sat_bind, sat_get]
    cases s.node i with
    | none => trivial
    | some x => rfl
  exact hsat.of_ok h

lemma directory_congr {x y z : FsM α} (h : isDir i s = .ok (.ok true, s) → x s = y s) :
    (isDir i >>= fun dir => if dir = false then z else x) s =
    (isDir i >>= fun dir => if dir = false then z else y) s := by
  refine bind_apply_congr fun b s' hb => ?_
  obtain rfl := isDir_eq hb
  cases b with
  | false => rfl
  | true => exact h hb

lemma firstIsDir_eq (hdir : again = true → isDir i s = .ok (.ok true, s)) : firstIsDir i again s = isDir i s := by
  cases again with
  | true => exact (hdir rfl).symm
  | false => rfl

lemma components_cons (h : 0 < n) (path : List Char) : ∃ name rest, components n path = name :: rest := by
  cases n with
  | zero => omega
  | succ n =>
    rw [components]
    rcases lookupSubpath path with ⟨name, _ | sub⟩
    · exact ⟨name, [], rfl⟩
    · exact ⟨name, components n sub, rfl⟩

section

variable (hpath : Relative path)
include hpath

section

variable (hn : path.length < n) (hdir : again = true → isDir i s = .ok (.ok true, s))
include hn hdir

lemma lookupChars_eq :
    lookupChars n i path again s = lookupLoop i (components n path) s := by
  induction n generalizing path i again s with
  | zero => omega
  | succ n ih =>
    rw [lookupChars, components, bind_of_eq _ (firstIsDir_eq hdir)]
    rcases hsub : lookupSubpath path with ⟨name, _ | sub⟩
    · rw [lookupLoop]
      refine directory_congr fun _ => ?_
      dsimp only
      split
      · rfl
      · exact (bind_pure_apply _).symm
    obtain ⟨hrel, hlen⟩ := lookupSubpath_some hsub hpath
    rw [lookupLoop]
    refine directory_congr fun hb => ?_
    dsimp only
    split
    · exact ih hrel (by omega) fun _ => hb
    · exact bind_apply_congr fun j s' _ => ih hrel (by omega) (fun h => by cases h)

lemma lookupParentChars_eq (hc : components n path = name :: rest) :
    lookupParentChars n i path again s = lookupParentLoop i name rest s := by
  induction n generalizing path i again s name rest with
  | zero => omega
  | succ n ih =>
    rw [components] at hc
    rw [lookupParentChars, bind_of_eq _ (firstIsDir_eq hdir)]
    rcases hsub : lookupSubpath path with ⟨first, _ | sub⟩
    · rw [hsub] at hc
      cases hc
      exact bind_apply_congr fun b s' _ => rfl
    obtain ⟨hrel, hlen⟩ := lookupSubpath_some hsub hpath
    obtain ⟨next, after, hnext⟩ := components_cons (by omega : 0 < n) sub
    rw [hsub] at hc
    obtain ⟨rfl, rfl⟩ := List.cons.inj hc
    rw [hnext, lookupParentLoop]
    refine directory_congr fun hb => ?_
    dsimp only
    split
    · exact ih hrel (by omega) (fun _ => hb) hnext
    · exact bind_apply_congr fun j s' _ => ih hrel (by omega) (fun h => by cases h) hnext

end

def split (path : List Char) : List Name := components (path.length + 1) path

lemma sfsLookupChars_eq : sfsLookupChars i path s = sfsLookup i (split path) s := by
  rw [sfsLookupChars, check, if_pos hpath]
  exact bind_apply_congr fun _ s' _ => lookupChars_eq hpath (Nat.lt_succ_self _) (fun h => by cases h)

lemma sfsLookupParentChars_eq (hc : split path = name :: rest) :
    sfsLookupParentChars i path s = sfsLookupParent i name rest s := by
  rw [sfsLookupParentChars, check, if_pos hpath]
  exact bind_apply_congr fun _ s' _ => lookupParentChars_eq hpath (Nat.lt_succ_self _) (fun h => by cases h) hc

end

end Ucore.Fs
