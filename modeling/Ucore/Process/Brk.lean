import Ucore.Mm.Mmap

/-!
# The system calls that return a word through a user pointer

`do_brk`, `do_mmap` and `do_shmem` of `process/proc.c` check the caller's word
once, read it, change the areas and then store to the word directly. Each
direct access is recorded with the address space as it is at that moment.
-/

namespace Ucore.Process

open Mm

def sizeofWord : Nat := 8

structure Touch where
  mm : MmStruct
  access : Access
  addr : Nat

def Touch.Ok (t : Touch) : Prop := Permitted t.mm t.access t.addr (addWrap t.addr sizeofWord)

structure Outcome where
  ret : Except Errno Unit
  mm : MmStruct
  touches : List Touch
  effects : List Effect

/-- `copy_from_user(mm, &word, store, sizeof(uintptr_t), 1)`, and what the
caller does once it has the word. -/
def withWord (mm : MmStruct) (store : Nat) (body : MmStruct → Except Panic Outcome) : Except Panic Outcome := do
  match ← userMemCheck mm store sizeofWord true with
  | (false, mm) => return ⟨.error .inval, mm, [], []⟩
  | (true, mm) =>
    let out ← body mm
    return { out with touches := ⟨mm, .read, store⟩ :: out.touches }

/-- `do_brk` between the read of `brk` and the label `out_unlock`. -/
def moveBrk (ok : Nat → Bool) (mm : MmStruct) (brk : Nat) : Except Panic (MmStruct × List Effect) :=
  if brk < mm.brkStart then .ok (mm, [])
  else
    let newbrk := roundUp brk
    let oldbrk := mm.brk
    if oldbrk % pgSize ≠ 0 then .error .assertion
    else if newbrk = oldbrk then .ok (mm, [])
    else if newbrk < oldbrk then do
      match ← mmUnmap ok mm newbrk (oldbrk - newbrk) with
      | (.error _, mm, effects) => return (mm, effects)
      | (.ok (), mm, effects) => return ({ mm with brk := newbrk }, effects)
    else do
      match ← findVmaIntersection mm oldbrk (addWrap newbrk pgSize) with
      | (some _, mm) => return (mm, [])
      | (none, mm) => match ← mmBrk ok mm oldbrk (newbrk - oldbrk) with
        | (.error _, mm, effects) => return (mm, effects)
        | (.ok (), mm, effects) => return ({ mm with brk := newbrk }, effects)

def doBrk (ok : Nat → Bool) (mm : MmStruct) (brkStore brk : Nat) : Except Panic Outcome :=
  if brkStore = 0 then .ok ⟨.error .inval, mm, [], []⟩
  else withWord mm brkStore fun mm => do
    let (mm, effects) ← moveBrk ok mm brk
    return ⟨.ok (), mm, [⟨mm, .write, brkStore⟩], effects⟩

def mmapFlags (write stack : Bool) : VmFlags := { read := true, write, stack }

/-- The page-aligned address and length that both calls work with; an address
of zero asks for any free range. -/
def mmapRange (mm : MmStruct) (addr len : Nat) : Option (Nat × Nat) :=
  let start := roundDown addr
  let stop := roundUp (addWrap addr len)
  let len := (stop + (wordSize - start)) % wordSize
  if start = 0 then
    let start := getUnmappedArea mm len
    if start = 0 then none else some (start, len)
  else some (start, len)

def doMmap (ok : Nat → Bool) (mm : MmStruct) (addrStore addr len : Nat) (write stack : Bool) :
    Except Panic Outcome :=
  if addrStore = 0 ∨ len = 0 then .ok ⟨.error .inval, mm, [], []⟩
  else withWord mm addrStore fun mm => do
    match mmapRange mm addr len with
    | none => return ⟨.error .noMem, mm, [], []⟩
    | some (addr, len) => match ← mmMap ok mm addr len (mmapFlags write stack) with
      | (.error e, mm) => return ⟨.error e, mm, [], []⟩
      | (.ok _, mm) => return ⟨.ok (), mm, [⟨mm, .write, addrStore⟩], []⟩

/-- `shmem` is the object that `shmem_create` returns. -/
def doShmem (ok : Nat → Bool) (mm : MmStruct) (addrStore addr len : Nat) (write stack : Bool)
    (shmem : Option Nat) : Except Panic Outcome :=
  if addrStore = 0 ∨ len = 0 then .ok ⟨.error .inval, mm, [], []⟩
  else withWord mm addrStore fun mm => do
    match mmapRange mm addr len, shmem with
    | some (addr, len), some shmem => match ← mmMapShmem ok mm addr (mmapFlags write stack) shmem len with
      | (.error e, mm) => return ⟨.error e, mm, [], []⟩
      | (.ok (), mm) => return ⟨.ok (), mm, [⟨mm, .write, addrStore⟩], []⟩
    | _, _ => return ⟨.error .noMem, mm, [], []⟩

inductive Call where
  | brk (store word : Nat)
  | mmap (store word len : Nat) (write stack : Bool)
  | shmem (store word len : Nat) (write stack : Bool) (obj : Option Nat)

def Call.store : Call → Nat
  | .brk store _ => store
  | .mmap store .. => store
  | .shmem store .. => store

def Call.exec (ok : Nat → Bool) (mm : MmStruct) : Call → Except Panic Outcome
  | .brk store word => doBrk ok mm store word
  | .mmap store word len write stack => doMmap ok mm store word len write stack
  | .shmem store word len write stack obj => doShmem ok mm store word len write stack obj

variable {mm mm' : MmStruct} {start stop s e store : Nat} {acc : Access} {ok : Nat → Bool}

def Grown (mm mm' : MmStruct) : Prop :=
  ∀ v ∈ mm.space, ∃ v' ∈ mm'.space, v'.vmStart = v.vmStart ∧ v.vmEnd ≤ v'.vmEnd ∧ v'.vmFlags = v.vmFlags

lemma Grown.of_subset (h : ∀ v ∈ mm.space, v ∈ mm'.space) : Grown mm mm' := fun v hv => ⟨v, h v hv, rfl, le_rfl, rfl⟩

lemma Grown.setBrk (h : Grown mm mm') (brk : Nat) : Grown mm { mm' with brk } := h

lemma permitted_mono (h : Inv mm) (h' : Inv mm') (hsub : Grown mm mm')
    (hp : Permitted mm acc start stop) : Permitted mm' acc start stop := by
  rw [permitted_iff h] at hp
  rw [permitted_iff h']
  intro a h1 h2
  obtain ⟨v, hv, hva, hguard, hflag⟩ := hp a h1 h2
  obtain ⟨v', hv', hs, he, hf⟩ := hsub v hv
  refine ⟨v', hv', ⟨hs ▸ hva.1, Nat.lt_of_lt_of_le hva.2 he⟩, by rw [hf, hs]; exact hguard, ?_⟩
  rw [hf]
  exact hflag

/-- After unmapping `[s, e)` an access that was permitted still is, exactly
when it keeps out of the range, and out of the page behind it if a stack goes
on there: that page is the new guard. -/
lemma permitted_unmapped {eff : List Effect} (h : Inv mm) (h' : Inv mm') (hun : Unmapped mm mm' s e eff)
    (hse : s < e) (he : e % pgSize = 0) (hss : start < stop) (hp : Permitted mm acc start stop) :
    Permitted mm' acc start stop ↔ (stop ≤ s ∨ e ≤ start) ∧
    ∀ v ∈ mm.space, v.vmFlags.stack = true → v.vmStart < e → e < v.vmEnd →
    stop ≤ e ∨ e + pgSize ≤ start := by
  have hpage : 0 < pgSize := by decide
  have hmem {u : Vma} : u ∈ mm'.space ↔ ∃ v ∈ mm.space, u ∈ v.cut s e := by
    rw [hun.space, Multiset.mem_coe, List.mem_flatMap]
    rfl
  rw [permitted_iff h] at hp
  rw [permitted_iff h']
  constructor
  · intro hp'
    refine ⟨?_, fun v hv hst hlo hhi => ?_⟩
    · by_contra hcon
      obtain ⟨u, hu, hua, -⟩ := hp' (max start s) (by omega) (by omega)
      have := hun.outside hu
      have := hua.1
      have := hua.2
      omega
    · by_contra hcon
      obtain ⟨u, hu, hua, hguard, -⟩ := hp' (max start e) (by omega) (by omega)
      have hend : e + pgSize ≤ v.vmEnd := by
        have := (h.ok v hv).stop
        simp only [pgSize] at *
        omega
      -- the piece above the range is the area at that address
      have hpiece : v.resize e v.vmEnd ∈ mm'.space := hmem.mpr ⟨v, hv, Vma.mem_cut_iff.mpr
        (.inr (.inr (.inr ⟨Vma.hits_iff.mpr ⟨hlo, by omega⟩, hhi, rfl⟩)))⟩
      have hcov : (v.resize e v.vmEnd).Covers (max start e) := ⟨by simp, by simp; omega⟩
      rw [h'.unique hu hpiece hua hcov] at hguard
      have := hguard hst
      simp only [Vma.resize_start] at this
      omega
  · rintro ⟨hout, hstack⟩ a h1 h2
    obtain ⟨v, hv, hva, hguard, hflag⟩ := hp a h1 h2
    obtain ⟨u, hu, hua⟩ := Vma.cut_covers.mpr ⟨hva, (by omega : ¬ (s ≤ a ∧ a < e))⟩
    have hin := Vma.mem_cut hu
    refine ⟨u, hmem.mpr ⟨v, hv, hu⟩, hua, fun hst => ?_, by rw [hin.2.2.2]; exact hflag⟩
    rw [hin.2.2.2] at hst
    rcases Vma.mem_cut_iff.mp hu with ⟨-, rfl⟩ | ⟨-, -, -, rfl⟩ | ⟨-, -, -, rfl⟩ | ⟨hh, h3, rfl⟩
    · exact hguard hst
    · exact hguard hst
    · exact hguard hst
    · have hlo := hua.1
      simp only [Vma.resize_start] at *
      rcases hstack v hv hst (Vma.hits_iff.mp hh).1 h3 with h' | h' <;> omega

def Shrinks (ok : Nat → Bool) (mm : MmStruct) (brk : Nat) : Prop :=
  mm.brkStart ≤ brk ∧ roundUp brk < mm.brk ∧ userAccess (roundUp brk) mm.brk = true ∧
    ¬ SplitFails ok mm (roundUp brk) mm.brk

lemma moveBrk_ok (h : Inv mm) (hbrk : mm.brk % pgSize = 0) (hword : mm.brk < wordSize) (ok : Nat → Bool) (brk : Nat) :
    ∃ mm' eff, moveBrk ok mm brk = .ok (mm', eff) ∧ Inv mm' ∧
    (Shrinks ok mm brk ∧ Unmapped mm mm' (roundUp brk) mm.brk eff ∨
        ¬ Shrinks ok mm brk ∧ Grown mm mm') := by
  have hsame {mm' : MmStruct} (hsp : mm'.space = mm.space) : Grown mm mm' := .of_subset (by simp [hsp])
  rw [moveBrk]
  split
  · case isTrue hlt => exact ⟨mm, [], rfl, h, .inr ⟨fun hs => by have := hs.1; omega, hsame rfl⟩⟩
  rw [if_neg (by simp [hbrk])]
  split
  · case isTrue heq => exact ⟨mm, [], rfl, h, .inr ⟨fun hs => by have := hs.2.1; omega, hsame rfl⟩⟩
  split
  · case isTrue hne hlt =>
    obtain ⟨r, mm1, eff, hun, hinv, hb, hr⟩ := mmUnmap_ok h ok (roundUp brk) (mm.brk - roundUp brk)
    simp only [hun, bind, Except.bind]
    rw [roundDown_of_mod (by simp), addWrap_sub (Nat.le_of_lt hlt) hword, roundUp_of_mod hbrk hword] at hr
    cases r with
    | error err => exact ⟨mm1, eff, rfl, hinv, .inr ⟨fun hs => hs.2.2.2 (hr.1 hs.2.2.1), hsame hr.2.1⟩⟩
    | ok _ =>
      obtain ⟨hua, hsplit, hunm⟩ := hr
      exact ⟨_, eff, rfl, hinv.setBrk _, .inl ⟨⟨by omega, hlt, hua, hsplit⟩, hunm.setBrk _⟩⟩
  · case isFalse hne hge =>
    have hnot : ¬ Shrinks ok mm brk := fun hs => hge hs.2.1
    obtain ⟨c, hfind, hinv⟩ := findVmaIntersection_ok h mm.brk (addWrap (roundUp brk) pgSize)
    simp only [hfind, bind, Except.bind]
    cases hf : firstIn mm mm.brk (addWrap (roundUp brk) pgSize) with
    | some id => exact ⟨_, [], rfl, hinv, .inr ⟨hnot, hsame rfl⟩⟩
    | none =>
      obtain ⟨r, mm', eff, hmm, hinv', hb, hr⟩ := mmBrk_ok hinv ok mm.brk (roundUp brk - mm.brk)
      simp only [hmm]
      have hlt : mm.brk < roundUp brk := by omega
      have hnew : roundUp brk < wordSize := by
        have := roundUp_lt brk
        have : 0 < pgSize := by decide
        omega
      rw [roundDown_of_mod hbrk, addWrap_sub (Nat.le_of_lt hlt) hnew, roundUp_roundUp] at hr
      have hgrown : Grown mm mm' := by
        rcases hr with ⟨-, hsp, -⟩ | ⟨mm1, -, hunm, hua, hr⟩
        · exact .of_subset (by rw [hsp]; exact fun v hv => hv)
        -- nothing was mapped in the new part of the heap
        have hnone : ∀ v ∈ mm.areas, v.hits mm.brk (roundUp brk) = false := by
          intro v hv
          have htop := (userAccess_iff.mp hua).2.2
          have hnot := firstIn_eq_none h hf hv
          rw [← Bool.not_eq_true, Vma.hits_iff] at hnot ⊢
          have : addWrap (roundUp brk) pgSize = roundUp brk + pgSize := by
            simp only [addWrap, wordSize, userTop, pgSize] at htop ⊢
            omega
          omega
        have hsp1 : mm1.space = mm.space := by
          rw [hunm.space]
          exact congrArg Multiset.ofList (flatMap_cut hnone)
        cases r with
        | error err => exact .of_subset (by rw [hr, hsp1]; exact fun v hv => hv)
        | ok _ =>
          rcases hr with hsp | ⟨v, rest, hv, hend, -, hsp⟩
          · exact .of_subset (by rw [hsp, hsp1]; exact fun v => Multiset.mem_cons_of_mem)
          · intro w hw
            rw [← hsp1, hv, Multiset.mem_cons] at hw
            rw [hsp]
            rcases hw with rfl | hw
            · exact ⟨_, Multiset.mem_cons_self .., rfl, by simp only [hend]; omega, rfl⟩
            · exact ⟨w, Multiset.mem_cons_of_mem hw, rfl, le_rfl, rfl⟩
      cases r with
      | error err => exact ⟨mm', eff, rfl, hinv', .inr ⟨hnot, hgrown⟩⟩
      | ok _ => exact ⟨_, eff, rfl, hinv'.setBrk _, .inr ⟨hnot, hgrown.setBrk _⟩⟩

def WordChecked (mm : MmStruct) (store : Nat) : Prop :=
  ∃ mm', userMemCheck mm store sizeofWord true = .ok (true, mm')

def WordReadable (mm : MmStruct) (store : Nat) : Prop :=
  ∀ v ∈ mm.space, v.hits store (addWrap store sizeofWord) = true → v.vmFlags.read = true ∨ v.vmFlags.exec = true

/-- The word is not in the range `[s, e)`, nor in the guard page of a stack
that begins at `e` once the range is cut out. -/
def WordClear (mm : MmStruct) (store s e : Nat) : Prop :=
  (addWrap store sizeofWord ≤ s ∨ e ≤ store) ∧ ∀ v ∈ mm.space, v.vmFlags.stack = true → v.vmStart < e → e < v.vmEnd →
      addWrap store sizeofWord ≤ e ∨ e + pgSize ≤ store

lemma withWord_ok {clear : Prop} {body : MmStruct → Except Panic Outcome} (h : Inv mm) (store : Nat)
    (hbody : ∀ c, Inv { mm with mmapCache := c } → store < addWrap store sizeofWord →
      Permitted { mm with mmapCache := c } .write store (addWrap store sizeofWord) →
      ∃ out, body { mm with mmapCache := c } = .ok out ∧ ((∀ t ∈ out.touches, t.Ok) ↔ clear)) :
    ∃ out, withWord mm store body = .ok out ∧
      ((∀ t ∈ out.touches, t.Ok) ↔ (WordChecked mm store → WordReadable mm store ∧ clear)) := by
  obtain ⟨b, c, hcheck, hinv, hb⟩ := userMemCheck_ok h store sizeofWord true
  cases b with
  | false =>
    refine ⟨_, by simp only [withWord, hcheck, bind, Except.bind]; rfl, ?_⟩
    simp [WordChecked, hcheck]
  | true =>
  obtain ⟨hua, hcov⟩ := hb.mp rfl
  have hlt := (userAccess_iff.mp hua).2.1
  have hwrite : Permitted { mm with mmapCache := c } .write store (addWrap store sizeofWord) := by
    rw [permitted_iff hinv]
    intro a h1 h2
    obtain ⟨v, hv, hva, hflag, hguard⟩ := hcov a h1 h2
    exact ⟨v, hv, hva, hguard rfl, by simpa using hflag⟩
  have hread : Permitted { mm with mmapCache := c } .read store (addWrap store sizeofWord) ↔
      WordReadable mm store := by
    rw [permitted_iff hinv]
    constructor
    · intro hp v hv hhit
      rw [Vma.hits_iff] at hhit
      obtain ⟨w, hw, hwa, -, hflag⟩ := hp (max store v.vmStart) (by omega) (by omega)
      have := (h.ok v hv).lt
      rwa [h.unique hv hw ⟨by omega, by omega⟩ hwa]
    · intro hread a h1 h2
      obtain ⟨v, hv, hva, -, hguard⟩ := hcov a h1 h2
      have := hva.1
      have := hva.2
      exact ⟨v, hv, hva, hguard rfl, hread v hv (Vma.hits_iff.mpr ⟨by omega, by omega⟩)⟩
  obtain ⟨out, hout, hclear⟩ := hbody c hinv hlt hwrite
  refine ⟨{ out with touches := ⟨{ mm with mmapCache := c }, .read, store⟩ :: out.touches },
    by simp only [withWord, hcheck, hout, bind, Except.bind]; rfl, ?_⟩
  have hchecked : WordChecked mm store := ⟨_, hcheck⟩
  simp only [List.mem_cons, forall_eq_or_imp, forall_prop_of_true hchecked]
  exact and_congr hread hclear

def Call.Reads (mm : MmStruct) : Call → Prop
  | .brk store _ => store ≠ 0 ∧ WordChecked mm store
  | .mmap store _ len _ _ => ¬ (store = 0 ∨ len = 0) ∧ WordChecked mm store
  | .shmem store _ len _ _ _ => ¬ (store = 0 ∨ len = 0) ∧ WordChecked mm store

def Call.Clear (ok : Nat → Bool) (mm : MmStruct) : Call → Prop
  | .brk store word => Shrinks ok mm word → WordClear mm store (roundUp word) mm.brk
  | .mmap .. => True
  | .shmem .. => True

lemma touches_ok {touches : List Touch} (h : Inv mm) (h' : Inv mm') (hsub : ∀ v ∈ mm.space, v ∈ mm'.space)
    (hp : Permitted mm .write store (addWrap store sizeofWord))
    (ht : touches ⊆ [⟨mm', .write, store⟩]) : ∀ t ∈ touches, t.Ok := by
  intro t hmem
  rw [List.mem_singleton.mp (ht hmem)]
  exact permitted_mono h h' (.of_subset hsub) hp

/-- Every direct access of the three calls to the caller's word is let through,
exactly when the word is readable and out of the way of a shrinking heap. -/
theorem directAccess_iff (h : Inv mm) (hbrk : mm.brk % pgSize = 0) (hword : mm.brk < wordSize)
    (ok : Nat → Bool) (call : Call) :
    ∃ out, call.exec ok mm = .ok out ∧ ((∀ t ∈ out.touches, t.Ok) ↔
        (call.Reads mm → WordReadable mm call.store ∧ call.Clear ok mm)) := by
  cases call with
  | brk store word =>
    by_cases h0 : store = 0
    · exact ⟨_, by rw [Call.exec, doBrk, if_pos h0], by simp [Call.Reads, h0]⟩
    rw [Call.exec, doBrk, if_neg h0, Call.Reads, and_iff_right h0]
    refine withWord_ok h store fun c hinv hlt hp => ?_
    obtain ⟨mm', eff, hmove, hinv', hmoved⟩ := moveBrk_ok hinv hbrk hword ok word
    refine ⟨_, by simp only [hmove, bind, Except.bind]; rfl, ?_⟩
    rw [List.forall_mem_singleton]
    rcases hmoved with ⟨hs, hun⟩ | ⟨hs, hgrown⟩
    · exact (permitted_unmapped hinv hinv' hun hs.2.1 hbrk hlt hp).trans ⟨fun hc _ => hc, fun hc => hc hs⟩
    · exact iff_of_true (permitted_mono hinv hinv' hgrown hp) fun hs' => absurd hs' hs
  | mmap store word len write stack =>
    by_cases h0 : store = 0 ∨ len = 0
    · exact ⟨_, by rw [Call.exec, doMmap, if_pos h0], by simp [Call.Reads, h0]⟩
    rw [Call.exec, doMmap, if_neg h0, Call.Reads, and_iff_right h0]
    refine withWord_ok h store fun c hinv _ hp => ?_
    cases hr : mmapRange { mm with mmapCache := c } word len with
    | none => exact ⟨_, rfl, iff_of_true (by simp) trivial⟩
    | some range =>
      obtain ⟨r, mm', hmap, hinv', -, hr⟩ := mmMap_ok hinv ok range.1 range.2 (mmapFlags write stack)
      cases r with
      | error err => exact ⟨_, by simp only [hmap, bind, Except.bind]; rfl, iff_of_true (by simp) trivial⟩
      | ok id =>
        exact ⟨_, by simp only [hmap, bind, Except.bind]; rfl, iff_of_true (touches_ok hinv hinv'
          (by rw [hr.2.2.1]; exact fun _ hv => Multiset.mem_cons_of_mem hv) hp (List.Subset.refl _)) trivial⟩
  | shmem store word len write stack obj =>
    by_cases h0 : store = 0 ∨ len = 0
    · exact ⟨_, by rw [Call.exec, doShmem, if_pos h0], by simp [Call.Reads, h0]⟩
    rw [Call.exec, doShmem, if_neg h0, Call.Reads, and_iff_right h0]
    refine withWord_ok h store fun c hinv _ hp => ?_
    cases hr : mmapRange { mm with mmapCache := c } word len with
    | none => exact ⟨_, rfl, iff_of_true (by simp) trivial⟩
    | some range =>
      cases obj with
      | none => exact ⟨_, rfl, iff_of_true (by simp) trivial⟩
      | some obj =>
      obtain ⟨r, mm', hmap, hinv', -, hr⟩ := mmMapShmem_ok hinv ok range.1 (mmapFlags write stack) obj range.2
      cases r with
      | error err => exact ⟨_, by simp only [hmap, bind, Except.bind]; rfl, iff_of_true (by simp) trivial⟩
      | ok _ =>
        exact ⟨_, by simp only [hmap, bind, Except.bind]; rfl, iff_of_true (touches_ok hinv hinv'
          (by rw [hr.2.2]; exact fun _ hv => Multiset.mem_cons_of_mem hv) hp (List.Subset.refl _)) trivial⟩

/-- A heap of two pages whose break is lowered by one, with the word in the
page given up: the final store faults, and `do_pgfault` refuses. -/
theorem brk_faults : ∃ mm out t, mmMap (fun _ => true) mmCreate 0x1000000 0x2000 rwFlags = .ok (.ok 0, mm) ∧
    (Call.brk 0x1001000 0x1001000).exec (fun _ => true)
    { mm with brkStart := 0x1000000, brk := 0x1002000 } = .ok out ∧
      t ∈ out.touches ∧ ¬ t.Ok := by
  refine ⟨_, _, ⟨_, .write, 0x1001000⟩, rfl, rfl, .tail _ (.head _ ..), fun h => ?_⟩
  exact h 0x1001000 (by decide) (by decide) 2 (by simp [Access.errorCodes]) ⟨_, rfl⟩

theorem brk_iff_raise : ∃ mm, mmMap (fun _ => true) mmCreate 0x1000000 0x2000 rwFlags = .ok (.ok 0, mm) ∧
    ∃ out, (Call.brk 0x1001000 0x1003000).exec (fun _ => true)
    { mm with brkStart := 0x1000000, brk := 0x1002000 } = .ok out ∧
      ((∀ t ∈ out.touches, t.Ok) ↔
        ((Call.brk 0x1001000 0x1003000).Reads { mm with brkStart := 0x1000000, brk := 0x1002000 } →
          WordReadable { mm with brkStart := 0x1000000, brk := 0x1002000 } 0x1001000 ∧
            (Call.brk 0x1001000 0x1003000).Clear (fun _ => true)
              { mm with brkStart := 0x1000000, brk := 0x1002000 })) := by
  obtain ⟨r, mm, hmap, hinv, -⟩ := mmMap_ok mmCreate_inv (fun _ => true) 0x1000000 0x2000 rwFlags
  obtain rfl : .ok 0 = r := (Prod.mk.inj (Except.ok.inj hmap)).1
  have hinv' : Inv { mm with brkStart := 0x1000000, brk := 0x1002000 } :=
    ⟨hinv.ok, hinv.ordered, hinv.count, hinv.tree, hinv.cache, hinv.fresh⟩
  exact ⟨mm, hmap, directAccess_iff hinv' (show 0x1002000 % pgSize = 0 by decide)
    (show 0x1002000 < wordSize by decide) (fun _ => true) (.brk 0x1001000 0x1003000)⟩

/-- The new area covers `len` bytes, in unbounded integers, from the address
asked for or, if any was asked for, from the one stored back; none of them was
covered before. -/
def MmapCovers (mm mm' : MmStruct) (addr len : Nat) : Prop :=
  ∃ stored len' v, mmapRange mm addr len = some (stored, len') ∧ mm'.space = v ::ₘ mm.space ∧
    let a := if roundDown addr = 0 then stored else addr
    v.vmStart ≤ a ∧ a + len ≤ v.vmEnd ∧ ∀ b, a ≤ b → b < a + len → ∀ u ∈ mm.space, ¬ u.Covers b

lemma roundDown_le_self (a : Nat) : roundDown a ≤ a := Nat.sub_le ..

lemma le_roundUp {a : Nat} (h : a < wordSize) (hpos : roundUp a ≠ 0) : a ≤ roundUp a := by
  simp only [roundUp, roundDown, addWrap, wordSize, pgSize] at *
  omega

lemma mmapRange_stop {addr len : Nat} (haddr : addr < wordSize) : addWrap (roundDown addr)
    ((roundUp (addWrap addr len) + (wordSize - roundDown addr)) % wordSize) = roundUp (addWrap addr len) := by
  have h1 := roundUp_lt (addWrap addr len)
  have h2 := roundDown_le_self addr
  have h3 : 0 < pgSize := by decide
  rw [addWrap, Nat.add_mod_mod, show roundDown addr + (roundUp (addWrap addr len) +
    (wordSize - roundDown addr)) = roundUp (addWrap addr len) + wordSize by omega,
    Nat.add_mod_right, Nat.mod_eq_of_lt (by omega)]

lemma mmapRange_covers {addr len stored len' a : Nat} {v : Vma} (h : Inv mm) (haddr : addr < wordSize)
    (hr : mmapRange mm addr len = some (stored, len')) (hs : v.vmStart = roundDown stored)
    (he : v.vmEnd = roundUp (addWrap stored len')) (hua : userAccess v.vmStart v.vmEnd = true)
    (ha : a = if roundDown addr = 0 then stored else addr) :
    (v.vmStart ≤ a ∧ a + len ≤ v.vmEnd) ↔ addr + len < wordSize := by
  have hua' := userAccess_iff.mp hua
  have htop : userTop + 2 * pgSize ≤ wordSize := by decide
  have hpage : roundDown addr = addr - addr % pgSize := rfl
  have hmod : addr % pgSize < pgSize := Nat.mod_lt _ (by decide)
  have hsum (hwrap : addr + len < wordSize) (hne : roundUp (addWrap addr len) ≠ 0) :
    addr + len ≤ roundUp (addWrap addr len) := by
    rw [addWrap, Nat.mod_eq_of_lt hwrap] at hne ⊢
    exact le_roundUp hwrap hne
  simp only [mmapRange] at hr
  by_cases hz : roundDown addr = 0
  · -- anywhere: the rounded length is that of the range found
    simp only [hz, ↓reduceIte, Nat.sub_zero, Nat.add_mod_right] at hr ha
    have hlt := roundUp_lt (addWrap addr len)
    rw [Nat.mod_eq_of_lt (by omega)] at hr
    by_cases hfree : getUnmappedArea mm (roundUp (addWrap addr len)) = 0
    · simp [hfree] at hr
    simp only [hfree, ↓reduceIte, Option.some.injEq, Prod.mk.injEq] at hr
    obtain ⟨rfl, rfl⟩ := hr
    have hlen : roundUp (addWrap addr len) ≠ 0 := fun h0 => hfree (by simp [getUnmappedArea, h0])
    rcases getUnmappedArea_ok h (Nat.pos_of_ne_zero hlen) with ⟨hz', -⟩ | ⟨hfit, -⟩
    · exact absurd hz' hfree
    have hin := hfit.2.1
    rw [addWrap, Nat.mod_eq_of_lt (lt_wordSize hin)] at he
    have hend := le_roundUp (lt_wordSize hin) (by omega)
    have hstart := roundDown_le_self (getUnmappedArea mm (roundUp (addWrap addr len)))
    constructor
    · intro hcov
      omega
    · intro hwrap
      have := hsum hwrap hlen
      exact ⟨by omega, by omega⟩
  · simp only [hz, ↓reduceIte, Option.some.injEq, Prod.mk.injEq] at hr ha
    obtain ⟨rfl, rfl⟩ := hr
    rw [mmapRange_stop haddr, roundUp_roundUp] at he
    rw [roundDown_of_mod (roundDown_mod _)] at hs
    constructor
    · intro hcov
      omega
    · intro hwrap
      have := hsum hwrap (by omega)
      exact ⟨by omega, by omega⟩

/-- A `do_mmap` that returns zero has mapped what was asked for exactly when
`addr + len` does not wrap. -/
theorem doMmap_covers_iff {addr len store : Nat} {write stack : Bool} {out : Outcome} (h : Inv mm)
    (haddr : addr < wordSize) (hcall : doMmap ok mm store addr len write stack = .ok out)
    (hret : out.ret = .ok ()) : MmapCovers mm out.mm addr len ↔ addr + len < wordSize := by
  obtain ⟨b, c, hcheck, hinv, -⟩ := userMemCheck_ok h store sizeofWord true
  rw [doMmap] at hcall
  split at hcall
  · cases hcall
    simp at hret
  simp only [withWord, hcheck, bind, Except.bind, pure, Except.pure] at hcall
  cases b with
  | false =>
    cases hcall
    simp at hret
  | true =>
  cases hr : mmapRange { mm with mmapCache := c } addr len with
  | none =>
    simp only [hr] at hcall
    cases hcall
    simp at hret
  | some p =>
  obtain ⟨stored, len'⟩ := p
  obtain ⟨r, mm', hmap, -, -, hpost⟩ := mmMap_ok hinv ok stored len' (mmapFlags write stack)
  simp only [hr, hmap] at hcall
  cases r with
  | error e =>
    cases hcall
    simp at hret
  | ok id =>
    cases hcall
    obtain ⟨hua, hap, hsp, -⟩ := hpost
    -- the cache has no part in the range
    change mmapRange mm addr len = _ at hr
    have hcov := mmapRange_covers (v := ⟨roundDown stored, roundUp (addWrap stored len'),
      { mmapFlags write stack with share := false }, none, 0⟩) h haddr hr rfl rfl hua rfl
    rw [← hcov]
    constructor
    · rintro ⟨stored', l, v, hr', hsp', h1, h2, -⟩
      obtain ⟨rfl, rfl⟩ : stored = stored' ∧ len' = l := by simpa [hr] using hr'
      obtain rfl := Multiset.cons_inj_left _ |>.mp (hsp.symm.trans hsp')
      exact ⟨h1, h2⟩
    · rintro ⟨h1, h2⟩
      refine ⟨stored, len', _, hr, hsp, h1, h2, fun b hb1 hb2 u hu huc => ?_⟩
      have := hap u hu
      simp only [Vma.Apart, Lib.Apart, Vma.Covers] at this huc h1 h2
      omega

/-- With an address that is not at the start of its page, `addr + len` can
wrap and still round up to a page of user space: one page is mapped where
`2^64 - 1` bytes were asked for. -/
theorem doMmap_wraps : ∃ out, doMmap (fun _ => true) onePage 0x1000000 0x1002800 (wordSize - 1) true false = .ok out ∧
    out.ret = .ok () ∧ ¬ MmapCovers onePage out.mm 0x1002800 (wordSize - 1) := by
  refine ⟨_, rfl, rfl, ?_⟩
  rintro ⟨stored, len', v, -, hsp, -, hend, -⟩
  have hv := hsp.symm.subst (motive := fun m => v ∈ m) (Multiset.mem_cons_self v _)
  have hlow : v.vmEnd ≤ 0x1003000 := by
    refine (?_ : ∀ w ∈ _, w.vmEnd ≤ 0x1003000) v hv
    decide
  have hle : wordSize - 1 ≤ 0x1003000 := Nat.le_trans (Nat.le_add_left ..) (Nat.le_trans hend hlow)
  exact absurd hle (by decide)

theorem doMmap_covers_page : ∃ out, doMmap (fun _ => true) onePage 0x1000000 0x1002800 0x1000 true false = .ok out ∧
    MmapCovers onePage out.mm 0x1002800 0x1000 := by
  refine ⟨_, rfl, ?_⟩
  exact (doMmap_covers_iff onePage_inv (by decide)
    (rfl : doMmap (fun _ => true) _ 0x1000000 0x1002800 0x1000 true false = _) rfl).mpr (by decide)

end Ucore.Process
