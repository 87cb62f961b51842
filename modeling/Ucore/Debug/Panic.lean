import Mathlib.Tactic.Common

/-!
# Ways to fail

A call that returns a negative number fails with an `Errno` and the kernel
goes on. A `Panic` is the end of the run: a failed assertion, a call of
`panic`, or an access in kernel mode that the fault handler refuses.
-/

namespace Ucore

inductive Errno
  | inval
  | noMem
  | swapFault
  | tooBig
  | busy
  | noent
  | isdir
  | notdir
  | exist
  | notempty
  | maxOpen
  | noDev
  | naDev
  deriving DecidableEq, Repr

inductive Panic
  | overlap
  | rbTree
  | assertion
  | nullShmem
  | badSwapEntry
  | maxSwapRef
  /-- A frame given back to the allocator that is free already, mapped or
  cached. The source does not check this. -/
  | badFree
  | kernelFault
  | badInode
  /-- A pointer to an inode that is no longer in memory. The source does not
  check this. -/
  | dangling
  /-- `__do_exit` of an idle process or `init`, or `do_wait` that finds one. -/
  | initExit
  | runLink
  | addTimer
  | badPa
  /-- A loop that has not ended after the rounds it was given, or a wait for a lock the
  process holds itself. -/
  | hang
  deriving DecidableEq, Repr

end Ucore
