import Ucore.Lib.Tree

/-!
# The red-black tree of `libs/rb_tree.c`

The tree lives in memory: `mem` maps every pointer to the node it points to, the two
sentinels `nil` and `root` included. Nodes are embedded in the structures they link, so
a pointer to an ordinary node is the identity of that structure. `none` is a failed
assertion, or a loop that has not ended after `fuel` rounds.
-/

namespace Ucore.Libs

open Lib (Dir)

inductive RbPtr (α : Type) where
  | nil
  | root
  | node (a : α)
  deriving DecidableEq, Repr

structure RbNode (α : Type) where
  red : Bool
  parent : RbPtr α
  left : RbPtr α
  right : RbPtr α
  deriving DecidableEq, Repr

def RbNode.child (n : RbNode α) : Dir → RbPtr α
  | .left => n.left
  | .right => n.right

def RbNode.setChild (n : RbNode α) (d : Dir) (p : RbPtr α) : RbNode α :=
  match d with
  | .left => { n with left := p }
  | .right => { n with right := p }

def RbNode.setRed (n : RbNode α) (red : Bool) : RbNode α := { n with red }

def RbNode.setParent (n : RbNode α) (parent : RbPtr α) : RbNode α := { n with parent }

@[ext] structure RbTree (α : Type) where
  mem : RbPtr α → RbNode α

namespace RbTree

variable {α : Type} [DecidableEq α]

def update (t : RbTree α) (p : RbPtr α) (f : RbNode α → RbNode α) : RbTree α :=
  ⟨fun q => if q = p then f (t.mem p) else t.mem q⟩

def setRed (t : RbTree α) (p : RbPtr α) (red : Bool) : RbTree α :=
  t.update p (·.setRed red)

def setParent (t : RbTree α) (p parent : RbPtr α) : RbTree α :=
  t.update p (·.setParent parent)

def setChild (t : RbTree α) (p : RbPtr α) (d : Dir) (c : RbPtr α) : RbTree α :=
  t.update p (·.setChild d c)

def isRed (t : RbTree α) (p : RbPtr α) : Bool := (t.mem p).red
def parent (t : RbTree α) (p : RbPtr α) : RbPtr α := (t.mem p).parent
def child (t : RbTree α) (p : RbPtr α) (d : Dir) : RbPtr α := (t.mem p).child d

def rbTreeCreate : RbTree α := ⟨fun _ => ⟨false, .nil, .nil, .nil⟩⟩

/-- `FUNC_ROTATE`; `rb_left_rotate` is the instance for `.left`. -/
def rbRotate (d : Dir) (t : RbTree α) (x : RbPtr α) : Option (RbTree α) :=
  let y := t.child x d.opp
  if x ≠ .root ∧ x ≠ .nil ∧ y ≠ .nil then
    let t := t.setChild x d.opp (t.child y d)
    let t := if t.child y d ≠ .nil then t.setParent (t.child y d) x else t
    let t := t.setParent y (t.parent x)
    let t := if x = t.child (t.parent x) d then t.setChild (t.parent x) d y
      else t.setChild (t.parent x) d.opp y
    let t := t.setChild y d x
    let t := t.setParent x y
    if t.isRed .nil then none else some t
  else none

/-- `COMPARE(tree, x, z) > 0`. The code never compares a sentinel. -/
def greater (compare : α → α → Int) (x : RbPtr α) (z : α) : Bool :=
  match x with
  | .node a => decide (compare a z > 0)
  | _ => false

/-- The descent of `rb_insert_binary`: the node below which `z` belongs. -/
def rbInsertPlace (compare : α → α → Int) (t : RbTree α) (z : α) : Nat → RbPtr α → RbPtr α → Option (RbPtr α)
  | 0, _, _ => none
  | fuel + 1, y, x =>
    if x = .nil then some y
    else rbInsertPlace compare t z fuel x (t.child x (if greater compare x z then .left else .right))

def rbInsertBinary (compare : α → α → Int) (fuel : Nat) (t : RbTree α) (z : α) : Option (RbTree α) := do
  let t := t.setChild (.node z) .left .nil
  let t := t.setChild (.node z) .right .nil
  let y ← rbInsertPlace compare t z fuel .root (t.child .root .left)
  let t := t.setParent (.node z) y
  if y = .root ∨ greater compare y z then some (t.setChild y .left (.node z))
  else some (t.setChild y .right (.node z))

/-- `RB_INSERT_SUB(_left, _right)` with `_left` the side `d`: the next `x`
and the tree after the round. -/
def rbInsertSub (d : Dir) (t : RbTree α) (x : RbPtr α) : Option (RbTree α × RbPtr α) :=
  let y := t.child (t.parent (t.parent x)) d.opp
  if t.isRed y then
    let t := t.setRed (t.parent x) false
    let t := t.setRed y false
    let t := t.setRed (t.parent (t.parent x)) true
    some (t, t.parent (t.parent x))
  else do
    let (t, x) ← if x = t.child (t.parent x) d.opp then
        (rbRotate d t (t.parent x)).map (·, t.parent x)
      else some (t, x)
    let t := t.setRed (t.parent x) false
    let t := t.setRed (t.parent (t.parent x)) true
    let t ← rbRotate d.opp t (t.parent (t.parent x))
    some (t, x)

/-- The `while (x->parent->red)` loop of `rb_insert`. -/
def rbInsertFixup : Nat → RbTree α → RbPtr α → Option (RbTree α)
  | 0, _, _ => none
  | fuel + 1, t, x =>
    if t.isRed (t.parent x) then do
      let d := if t.parent x = t.child (t.parent (t.parent x)) .left then Dir.left else Dir.right
      let (t, x) ← rbInsertSub d t x
      rbInsertFixup fuel t x
    else some t

def rbInsert (compare : α → α → Int) (fuel : Nat) (t : RbTree α) (z : α) : Option (RbTree α) := do
  let t ← rbInsertBinary compare fuel t z
  let t := t.setRed (.node z) true
  let t ← rbInsertFixup fuel t (.node z)
  let t := t.setRed (t.child .root .left) false
  if t.isRed .nil ∨ t.isRed .root then none else some t

def rbDescend (d : Dir) (t : RbTree α) : Nat → RbPtr α → Option (RbPtr α)
  | 0, _ => none
  | fuel + 1, y => if t.child y d = .nil then some y else rbDescend d t fuel (t.child y d)

/-- The climb of `rb_tree_successor`. -/
def rbClimbRight (t : RbTree α) : Nat → RbPtr α → RbPtr α → Option (RbPtr α)
  | 0, _, _ => none
  | fuel + 1, x, y => if x = t.child y .right then rbClimbRight t fuel y (t.parent y) else some y

def rbTreeSuccessor (fuel : Nat) (t : RbTree α) (x : RbPtr α) : Option (RbPtr α) :=
  if t.child x .right ≠ .nil then rbDescend .left t fuel (t.child x .right)
  else do
    let y ← rbClimbRight t fuel x (t.parent x)
    some (if y = .root then .nil else y)

/-- The climb of `rb_tree_predecessor`. -/
def rbClimbLeft (t : RbTree α) : Nat → RbPtr α → RbPtr α → Option (RbPtr α)
  | 0, _, _ => none
  | fuel + 1, x, y =>
    if x = t.child y .left then
      if y = .root then some .nil else rbClimbLeft t fuel y (t.parent y)
    else some y

def rbTreePredecessor (fuel : Nat) (t : RbTree α) (x : RbPtr α) : Option (RbPtr α) :=
  if t.child x .left ≠ .nil then rbDescend .right t fuel (t.child x .left)
  else rbClimbLeft t fuel x (t.parent x)

/-- `rb_node_prev`: `some nil` stands for the `NULL` it returns at the end. -/
def rbNodePrev (fuel : Nat) (t : RbTree α) (x : RbPtr α) : Option (RbPtr α) :=
  rbTreePredecessor fuel t x

/-- `rb_node_next`, with `some nil` for `NULL` too. -/
def rbNodeNext (fuel : Nat) (t : RbTree α) (x : RbPtr α) : Option (RbPtr α) :=
  rbTreeSuccessor fuel t x

/-- `RB_DELETE_FIXUP_SUB(_left, _right)` with `_left` the side `d`, statement
by statement. First, a red sibling is rotated away. -/
def rbDeleteFixupRed (d : Dir) (t : RbTree α) (x : RbPtr α) : Option (RbTree α × RbPtr α) :=
  let w := t.child (t.parent x) d.opp
  if t.isRed w then do
    let t := t.setRed w false
    let t := t.setRed (t.parent x) true
    let t ← rbRotate d t (t.parent x)
    some (t, t.child (t.parent x) d.opp)
  else some (t, w)

/-- `if (!w->_right->red)`: bring a red node to the far side of `w`. -/
def rbDeleteFixupNear (d : Dir) (t : RbTree α) (x w : RbPtr α) : Option (RbTree α × RbPtr α) :=
  if !t.isRed (t.child w d.opp) then do
    let t := t.setRed (t.child w d) false
    let t := t.setRed w true
    let t ← rbRotate d.opp t w
    some (t, t.child (t.parent x) d.opp)
  else some (t, w)

def rbDeleteFixupFar (d : Dir) (t : RbTree α) (x w : RbPtr α) : Option (RbTree α) :=
  let t := t.setRed w (t.isRed (t.parent x))
  let t := t.setRed (t.parent x) false
  let t := t.setRed (t.child w d.opp) false
  rbRotate d t (t.parent x)

/-- The rest of the round for a black sibling `w`. `none` as the next `x` is
the assignment `x = root` that ends the loop. -/
def rbDeleteFixupRest (d : Dir) (t : RbTree α) (x w : RbPtr α) : Option (RbTree α × Option (RbPtr α)) :=
  if !t.isRed (t.child w d) && !t.isRed (t.child w d.opp) then
    let t := t.setRed w true
    some (t, some (t.parent x))
  else do
    let (t, w) ← rbDeleteFixupNear d t x w
    let t ← rbDeleteFixupFar d t x w
    some (t, none)

def rbDeleteFixupSub (d : Dir) (t : RbTree α) (x : RbPtr α) : Option (RbTree α × Option (RbPtr α)) := do
  let (t, w) ← rbDeleteFixupRed d t x
  rbDeleteFixupRest d t x w

/-- The loop of `rb_delete_fixup`. `root₀` is the root before the loop. -/
def rbDeleteFixupLoop (root₀ : RbPtr α) : Nat → RbTree α → RbPtr α → Option (RbTree α)
  | 0, _, _ => none
  | fuel + 1, t, x =>
    if x ≠ root₀ ∧ t.isRed x = false then do
      let d := if x = t.child (t.parent x) .left then Dir.left else Dir.right
      let (t, next) ← rbDeleteFixupSub d t x
      rbDeleteFixupLoop root₀ fuel t (next.getD root₀)
    else some (t.setRed x false)

def rbDeleteFixup (fuel : Nat) (t : RbTree α) (x : RbPtr α) : Option (RbTree α) :=
  rbDeleteFixupLoop (t.child .root .left) fuel t x

def rbUnlink (t : RbTree α) (y x : RbPtr α) : RbTree α :=
  let t := t.setParent x (t.parent y)
  if y = t.child (t.parent y) .left then t.setChild (t.parent y) .left x
  else t.setChild (t.parent y) .right x

/-- `y` takes the place of `z`, its links and its colour. -/
def rbReplace (t : RbTree α) (z y : RbPtr α) : RbTree α :=
  let t := if z = t.child (t.parent z) .left then t.setChild (t.parent z) .left y
    else t.setChild (t.parent z) .right y
  let t := t.setParent (t.child z .right) y
  let t := t.setParent (t.child z .left) y
  t.update y fun _ => t.mem z

def rbDelete (fuel : Nat) (t : RbTree α) (z : RbPtr α) : Option (RbTree α) := do
  let y ← if t.child z .left = .nil ∨ t.child z .right = .nil then some z
    else rbTreeSuccessor fuel t z
  let x := if t.child y .left ≠ .nil then t.child y .left else t.child y .right
  if y = .root ∨ y = .nil then none
  else
    let t := rbUnlink t y x
    let needFixup := !t.isRed y
    let t := if y ≠ z then rbReplace t z y else t
    if needFixup then rbDeleteFixup fuel t x else some t

end RbTree

end Ucore.Libs
