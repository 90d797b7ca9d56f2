/-
Binbows/Library/X86.lean

A small IA-32 machine, for the code that saves and restores the registers of a
program in ring 3.

* `Space` is linear memory with pages that may be absent.  `Holds m a ws` says
  that the words `ws` lie at `a`; a push puts a word in front (`Holds.push`),
  so what a stretch of code leaves on the stack is found by following its
  pushes as list operations.
* `Machine` is a processor in ring 0.  Segments are flat, so a selector matters
  only in two ways: whether it can be loaded, and that nothing can be accessed
  through a null selector.
* `interruptEntry` and `iret` are the two ways between ring 3 and ring 0.  A
  selector that is null or belongs to an inner ring becomes 0 on the way out.

An instruction that raises an exception gives `none`.
-/
import Binbows.Library.Bytes
import Mathlib.Tactic.Ring

namespace X86

open Bytes

abbrev Word := BitVec 32

/-! ### Linear memory -/

/-- Linear memory; a byte of an absent page is `none`. -/
abbrev Space := Word → Option Byte

namespace Space

def load16 (m : Space) (a : Word) : Option (BitVec 16) := do
  let b₀ ← m a
  let b₁ ← m (a + 1)
  return word16 ![b₀, b₁]

def load32 (m : Space) (a : Word) : Option Word := do
  let b₀ ← m a
  let b₁ ← m (a + 1)
  let b₂ ← m (a + 2)
  let b₃ ← m (a + 3)
  return word32 ![b₀, b₁, b₂, b₃]

/-- The memory with `v` at `a`. -/
def write32 (m : Space) (a v : Word) : Space := fun x =>
  if h : (x - a).toNat < 4 then some (bytes32 v ⟨(x - a).toNat, h⟩) else m x

def store32 (m : Space) (a v : Word) : Option Space :=
  if (m.load32 a).isSome then some (m.write32 a v) else none

/-- The bytes from `a` on, `n` of them, are there. -/
def Present (m : Space) (a : Word) (n : Nat) : Prop :=
  ∀ j < n, (m (a + BitVec.ofNat 32 j)).isSome

/-- The words `ws` lie at `a`. -/
def Holds (m : Space) (a : Word) (ws : List Word) : Prop :=
  ∀ i (h : i < ws.length), m.load32 (a + BitVec.ofNat 32 (4 * i)) = some ws[i]

variable {m m' : Space} {a b v w : Word} {ws : List Word} {i n : Nat}

theorem load32_isSome :
    (m.load32 a).isSome ↔ (m a).isSome ∧ (m (a + 1)).isSome ∧ (m (a + 2)).isSome ∧
      (m (a + 3)).isSome := by
  simp only [load32]
  rcases m a with - | b₀ <;> rcases m (a + 1) with - | b₁ <;> rcases m (a + 2) with - | b₂ <;>
    rcases m (a + 3) with - | b₃ <;> simp

theorem store32_eq_some : m.store32 a v = some m' ↔ (m.load32 a).isSome ∧ m' = m.write32 a v := by
  unfold store32
  split_ifs with h
  · simp [h, eq_comm]
  · simp [h]

theorem load32_write32_self : (m.write32 a v).load32 a = some v := by
  have h₀ : (a - a).toNat = 0 := by simp
  have h₁ : (a + 1 - a).toNat = 1 := by bv_omega
  have h₂ : (a + 2 - a).toNat = 2 := by bv_omega
  have h₃ : (a + 3 - a).toNat = 3 := by bv_omega
  simp only [load32, write32, h₀, h₁, h₂, h₃]
  have hbytes : ![bytes32 v 0, bytes32 v 1, bytes32 v 2, bytes32 v 3] = bytes32 v := by
    funext i
    fin_cases i <;> rfl
  show some (word32 ![bytes32 v 0, bytes32 v 1, bytes32 v 2, bytes32 v 3]) = some v
  rw [hbytes, word32_bytes32]

/-- A store leaves the words that it does not touch. -/
theorem load32_write32_of_apart (h : 4 ≤ (b - a).toNat) (h' : (b - a).toNat + 4 ≤ 2 ^ 32) :
    (m.write32 a v).load32 b = m.load32 b := by
  have hbyte : ∀ x : Word, 4 ≤ (x - a).toNat → m.write32 a v x = m x := by
    intro x hx
    rw [write32, dif_neg (by omega)]
  simp only [load32]
  rw [hbyte b h, hbyte (b + 1) (by bv_omega), hbyte (b + 2) (by bv_omega),
    hbyte (b + 3) (by bv_omega)]

/-- A store to pages that are there makes no other byte appear. -/
theorem write32_isSome (h : (m.load32 a).isSome) : (m.write32 a v b).isSome ↔ (m b).isSome := by
  unfold write32
  split_ifs with hlt
  · obtain ⟨h₀, h₁, h₂, h₃⟩ := load32_isSome.mp h
    refine iff_of_true rfl ?_
    obtain hb | hb | hb | hb : b = a ∨ b = a + 1 ∨ b = a + 2 ∨ b = a + 3 := by bv_omega
    all_goals
      rw [hb]
      assumption
  · rfl

theorem write32_present (h : (m.load32 a).isSome) :
    (m.write32 a v).Present b n ↔ m.Present b n :=
  forall₂_congr fun _ _ => write32_isSome h

theorem Present.load32_isSome (h : m.Present a n) (hb : b = a + BitVec.ofNat 32 i)
    (hi : i + 4 ≤ n) : (m.load32 b).isSome := by
  subst hb
  refine Space.load32_isSome.mpr ⟨h i (by omega), ?_, ?_, ?_⟩
  · have := h (i + 1) (by omega)
    rwa [BitVec.ofNat_add, ← BitVec.add_assoc] at this
  · have := h (i + 2) (by omega)
    rwa [BitVec.ofNat_add, ← BitVec.add_assoc] at this
  · have := h (i + 3) (by omega)
    rwa [BitVec.ofNat_add, ← BitVec.add_assoc] at this

/-- The bytes of one word. -/
theorem present_four : m.Present a 4 ↔ (m.load32 a).isSome := by
  constructor
  · intro h
    exact h.load32_isSome (i := 0) (by simp) le_rfl
  · intro h j hj
    obtain ⟨h₀, h₁, h₂, h₃⟩ := Space.load32_isSome.mp h
    obtain rfl | rfl | rfl | rfl : j = 0 ∨ j = 1 ∨ j = 2 ∨ j = 3 := by omega
    · simpa using h₀
    · exact h₁
    · exact h₂
    · exact h₃

theorem Present.write32 (h : m.Present b n) : (m.write32 a v).Present b n := by
  intro j hj
  unfold Space.write32
  split_ifs
  · rfl
  · exact h j hj

theorem present_add {k : Nat} (hb : b = a + BitVec.ofNat 32 n) :
    m.Present a (n + k) ↔ m.Present a n ∧ m.Present b k := by
  constructor
  · intro h
    refine ⟨fun j hj => h j (by omega), fun j hj => ?_⟩
    rw [hb, BitVec.add_assoc, ← BitVec.ofNat_add]
    exact h (n + j) (by omega)
  · rintro ⟨h, h'⟩ j hj
    rcases Nat.lt_or_ge j n with hlt | hge
    · exact h j hlt
    · have := h' (j - n) (by omega)
      rwa [hb, BitVec.add_assoc, ← BitVec.ofNat_add, Nat.add_sub_cancel' hge] at this

/-- The lower half of a word comes first. -/
theorem load16_of_load32 (h : m.load32 a = some w) : m.load16 a = some (w.setWidth 16) := by
  simp only [load32, load16] at *
  rcases h₀ : m a with - | b₀
  · rw [h₀] at h
    cases h
  rcases h₁ : m (a + 1) with - | b₁
  · rw [h₀, h₁] at h
    cases h
  rw [h₀, h₁] at h
  rcases h₂ : m (a + 2) with - | b₂
  · rw [h₂] at h
    cases h
  rcases h₃ : m (a + 3) with - | b₃
  · rw [h₂, h₃] at h
    cases h
  rw [h₂, h₃] at h
  obtain rfl := Option.some.inj h
  refine congrArg some ?_
  show b₁ ++ b₀ = (b₃ ++ b₂ ++ b₁ ++ b₀).setWidth 16
  ext i hi
  simp
  grind

theorem Holds.load (h : m.Holds a ws) (hb : b = a + BitVec.ofNat 32 (4 * i))
    (hw : ws[i]? = some w) : m.load32 b = some w := by
  obtain ⟨hi, rfl⟩ := List.getElem?_eq_some_iff.mp hw
  rw [hb]
  exact h i hi

/-- A word is put in front. -/
theorem Holds.push (h : m.Holds a ws) (hlen : 4 * ws.length + 8 ≤ 2 ^ 32) :
    (m.write32 (a - 4) v).Holds (a - 4) (v :: ws) := by
  intro i hi
  rw [List.length_cons] at hi
  cases i with
  | zero =>
      rw [show a - 4 + BitVec.ofNat 32 (4 * 0) = a - 4 by simp]
      exact load32_write32_self
  | succ i =>
      have haddr : a - 4 + BitVec.ofNat 32 (4 * (i + 1)) = a + BitVec.ofNat 32 (4 * i) := by
        bv_omega
      rw [haddr, load32_write32_of_apart (by bv_omega) (by bv_omega)]
      exact h i (by omega)

/-- A word in the middle is replaced. -/
theorem Holds.set (h : m.Holds a ws) (hlen : 4 * ws.length + 4 ≤ 2 ^ 32) (hn : n < ws.length)
    (hb : b = a + BitVec.ofNat 32 (4 * n)) : (m.write32 b v).Holds a (ws.set n v) := by
  intro i hi
  rw [List.length_set] at hi
  subst hb
  rcases eq_or_ne n i with rfl | hne
  · rw [List.getElem_set_self]
    exact load32_write32_self
  · rw [List.getElem_set_ne hne, load32_write32_of_apart (by bv_omega) (by bv_omega)]
    exact h i hi

theorem Holds.drop (h : m.Holds a ws) (hb : b = a + BitVec.ofNat 32 (4 * n)) :
    m.Holds b (ws.drop n) := by
  intro i hi
  rw [List.length_drop] at hi
  rw [List.getElem_drop, hb, BitVec.add_assoc, ← BitVec.ofNat_add, ← Nat.mul_add]
  exact h (n + i) (by omega)

theorem Holds.nil : m.Holds a [] := fun _ h => absurd h (Nat.not_lt_zero _)

/-- The memory after pushes at `esp`. -/
def pushed (m : Space) (esp : Word) : List Word → Space
  | [] => m
  | v :: vs => (m.write32 (esp - 4) v).pushed (esp - 4) vs

theorem pushed_append {esp : Word} {vs vs' : List Word} : m.pushed esp (vs ++ vs') =
    (m.pushed esp vs).pushed (esp - BitVec.ofNat 32 (4 * vs.length)) vs' := by
  induction vs generalizing m esp with
  | nil => simp [pushed]
  | cons u us ih =>
      have haddr : esp - 4 - BitVec.ofNat 32 (4 * us.length) =
          esp - BitVec.ofNat 32 (4 * (us.length + 1)) := by bv_omega
      rw [List.cons_append, pushed, ih, haddr]
      rfl

theorem pushed_concat {esp : Word} {vs : List Word} : m.pushed esp (vs ++ [v]) =
    (m.pushed esp vs).write32 (esp - BitVec.ofNat 32 (4 * vs.length) - 4) v :=
  pushed_append

end Space

/-! ### Segments -/

abbrev Selector := BitVec 16

namespace Selector

/-- Requested privilege level. -/
def rpl (s : Selector) : Nat := s.toNat % 4

/-- One of the four null selectors. -/
def IsNull (s : Selector) : Prop := s.toNat < 4

instance (s : Selector) : Decidable s.IsNull := inferInstanceAs (Decidable (_ < _))

end Selector

/-- What matters of a descriptor of a flat segment. -/
structure Descriptor where
  typeBit : BitVec 4
  nonSystem : Bool
  privilege : Nat
  present : Bool

namespace Descriptor

def code (d : Descriptor) : Bool := d.nonSystem && d.typeBit.getLsbD 3

def conforming (d : Descriptor) : Bool := d.code && d.typeBit.getLsbD 2

/-- A data segment, or a code segment that can be read. -/
def readable (d : Descriptor) : Bool :=
  d.nonSystem && (!d.typeBit.getLsbD 3 || d.typeBit.getLsbD 1)

def writable (d : Descriptor) : Bool :=
  d.nonSystem && !d.typeBit.getLsbD 3 && d.typeBit.getLsbD 1

end Descriptor

/-- A descriptor table; there is no local one. -/
abbrev DescriptorTable := List Descriptor

namespace DescriptorTable

def descriptor (gdt : DescriptorTable) (s : Selector) : Option Descriptor :=
  if s.getLsbD 2 then none else gdt[s.toNat / 8]?

/-- `mov` to DS, ES, FS or GS in ring `cpl` raises no exception. -/
def Loadable (gdt : DescriptorTable) (cpl : Nat) (s : Selector) : Prop :=
  s.IsNull ∨ ∃ d ∈ gdt.descriptor s, d.readable ∧ d.present ∧
    (d.conforming ∨ (cpl ≤ d.privilege ∧ s.rpl ≤ d.privilege))

/-- `iret` to ring 3 takes this selector as CS. -/
def UserCode (gdt : DescriptorTable) (s : Selector) : Prop :=
  ¬ s.IsNull ∧ s.rpl = 3 ∧ ∃ d ∈ gdt.descriptor s, d.code ∧ d.present ∧
    (d.conforming ∨ d.privilege = 3)

/-- `iret` to ring 3 takes this selector as SS. -/
def UserStack (gdt : DescriptorTable) (s : Selector) : Prop :=
  ¬ s.IsNull ∧ s.rpl = 3 ∧ ∃ d ∈ gdt.descriptor s, d.writable ∧ d.present ∧ d.privilege = 3

/-- What `iret` to ring 3 leaves in DS, ES, FS or GS. -/
def leave (gdt : DescriptorTable) (s : Selector) : Selector :=
  if s.IsNull then 0
  else if (gdt.descriptor s).any fun d => !d.conforming && d.privilege < 3 then 0
  else s

variable {gdt : DescriptorTable} {s : Selector}

instance {cpl : Nat} : Decidable (gdt.Loadable cpl s) :=
  inferInstanceAs (Decidable (_ ∨ _))

instance : Decidable (gdt.UserCode s) := inferInstanceAs (Decidable (_ ∧ _))

instance : Decidable (gdt.UserStack s) := inferInstanceAs (Decidable (_ ∧ _))

/-- What can be loaded in ring 3 can be loaded in ring 0. -/
theorem Loadable.inner {cpl : Nat} (h : gdt.Loadable cpl s) : gdt.Loadable 0 s := by
  rcases h with hnull | ⟨d, hd, hread, hpresent, hconf | ⟨-, hrpl⟩⟩
  · exact .inl hnull
  · exact .inr ⟨d, hd, hread, hpresent, .inl hconf⟩
  · exact .inr ⟨d, hd, hread, hpresent, .inr ⟨Nat.zero_le _, hrpl⟩⟩

/-- Of the selectors that ring 3 can load, only null selectors are lost. -/
theorem Loadable.leave_eq (h : gdt.Loadable 3 s) : gdt.leave s = if s.IsNull then 0 else s := by
  unfold leave
  split_ifs with hnull hany
  · rfl
  · obtain ⟨d, hd, -, -, hpriv⟩ := h.resolve_left hnull
    rw [Option.mem_def] at hd
    rw [hd] at hany
    rcases hpriv with hconf | ⟨hpriv, -⟩
    · simp [hconf] at hany
    · simp at hany
      omega
  · rfl

end DescriptorTable

/-! ### The processor -/

inductive Gpr
  | edi
  | esi
  | ebp
  | esp
  | ebx
  | edx
  | ecx
  | eax
  deriving DecidableEq, Repr

/-- The segment registers that code can load. -/
inductive Seg
  | gs
  | fs
  | es
  | ds
  deriving DecidableEq, Repr

/-- The registers, but for EIP. -/
@[ext] structure Cpu where
  gpr : Gpr → Word
  seg : Seg → Selector
  eflags : Word

/-- A program in ring 3 between two instructions. -/
@[ext] structure Program extends Cpu where
  eip : Word

/-- The processor in ring 0, with its address space. -/
structure Machine extends Cpu where
  mem : Space

namespace Machine

variable (gdt : DescriptorTable)

abbrev esp (m : Machine) : Word := m.gpr .esp

/-! Instructions. -/

/-- `mov` to a register. -/
def mov (m : Machine) (r : Gpr) (v : Word) : Machine :=
  { m with gpr := Function.update m.gpr r v }

def push (m : Machine) (v : Word) : Option Machine := do
  let mem ← m.mem.store32 (m.esp - 4) v
  return { m.mov .esp (m.esp - 4) with mem := mem }

/-- `push` of a segment register: the selector is zero-extended. -/
def pushSegment (m : Machine) (s : Seg) : Option Machine := m.push ((m.seg s).setWidth 32)

def pushAll (m : Machine) (vs : List Word) : Option Machine := vs.foldlM push m

def pushf (m : Machine) : Option Machine := m.push m.eflags

def pushad (m : Machine) : Option Machine := do
  let esp := m.esp
  let m ← m.push (m.gpr .eax)
  let m ← m.push (m.gpr .ecx)
  let m ← m.push (m.gpr .edx)
  let m ← m.push (m.gpr .ebx)
  let m ← m.push esp
  let m ← m.push (m.gpr .ebp)
  let m ← m.push (m.gpr .esi)
  m.push (m.gpr .edi)

/-- The word on top of the stack, and the machine without it. -/
def take (m : Machine) : Option (Word × Machine) := do
  let v ← m.mem.load32 m.esp
  return (v, m.mov .esp (m.esp + 4))

def pop (m : Machine) (r : Gpr) : Option Machine := do
  let (v, m) ← m.take
  return m.mov r v

def popf (m : Machine) : Option Machine := do
  let (v, m) ← m.take
  return { m with eflags := v }

/-- Memory can be accessed through this base register: with ESP and EBP through
SS, which is never null in ring 0, with the others through DS. -/
def Accessible (m : Machine) (base : Gpr) : Prop :=
  base = .esp ∨ base = .ebp ∨ ¬ (m.seg .ds).IsNull

instance (m : Machine) (base : Gpr) : Decidable (m.Accessible base) :=
  inferInstanceAs (Decidable (_ ∨ _))

/-- `mov r, [base + offset]`. -/
def load (m : Machine) (r base : Gpr) (offset : Word) : Option Machine :=
  if m.Accessible base then (m.mem.load32 (m.gpr base + offset)).map (m.mov r) else none

/-- `mov [base + offset], r`. -/
def store (m : Machine) (base : Gpr) (offset : Word) (r : Gpr) : Option Machine :=
  if m.Accessible base then
    (m.mem.store32 (m.gpr base + offset) (m.gpr r)).map fun mem => { m with mem := mem }
  else none

/-- `mov` of a selector to a segment register. -/
def movSegment (m : Machine) (s : Seg) (v : Selector) : Option Machine :=
  if gdt.Loadable 0 v then some { m with seg := Function.update m.seg s v } else none

/-- `mov s, word [base + offset]`. -/
def loadSegment (m : Machine) (s : Seg) (base : Gpr) (offset : Word) : Option Machine :=
  if m.Accessible base then (m.mem.load16 (m.gpr base + offset)).bind (m.movSegment gdt s)
  else none

/-- An interrupt through an interrupt gate takes the processor from ring 3 to
ring 0, on the stack of the task state segment; CS and SS are those of the
program.  IF, TF, NT, RF and VM are cleared. -/
def interruptEntry (program : Program) (cs ss : Selector) (esp0 : Word) (mem : Space) :
    Option Machine := do
  let m : Machine := { program with mem := mem }
  let m := m.mov .esp esp0
  let m ← m.push (ss.setWidth 32)
  let m ← m.push (program.gpr .esp)
  let m ← m.push program.eflags
  let m ← m.push (cs.setWidth 32)
  let m ← m.push program.eip
  return { m with eflags := m.eflags &&& ~~~0x34300#32 }

/-- `iret` to ring 3. -/
def iret (m : Machine) : Option Program := do
  let (eip, m) ← m.take
  let (cs, m) ← m.take
  let (eflags, m) ← m.take
  let (esp, m) ← m.take
  let (ss, m) ← m.take
  if gdt.UserCode (cs.setWidth 16) ∧ gdt.UserStack (ss.setWidth 16) then
    return {
      gpr := (m.mov .esp esp).gpr
      seg := fun s => gdt.leave (m.seg s)
      eflags := eflags
      eip := eip }
  else none

/-! Pushes to pages that are there. -/

def pushed (m : Machine) (v : Word) : Machine :=
  { m.mov .esp (m.esp - 4) with mem := m.mem.write32 (m.esp - 4) v }

def pushedAll (m : Machine) (vs : List Word) : Machine := vs.foldl pushed m

/-- The words on top of the stack. -/
abbrev Stack (m : Machine) (ws : List Word) : Prop := m.mem.Holds m.esp ws

variable {gdt} {m m' : Machine} {v w : Word} {ws : List Word} {r base : Gpr} {offset : Word}
  {i : Nat}

@[simp] theorem mov_mem : (m.mov r v).mem = m.mem := rfl

@[simp] theorem mov_seg : (m.mov r v).seg = m.seg := rfl

@[simp] theorem mov_gpr_self : (m.mov r v).gpr r = v := Function.update_self ..

theorem mov_gpr_of_ne {r' : Gpr} (h : r' ≠ r) : (m.mov r v).gpr r' = m.gpr r' :=
  Function.update_of_ne h ..

@[simp] theorem mov_mov : (m.mov r v).mov r w = m.mov r w := by
  simp [mov]

@[simp] theorem pushed_esp : (m.pushed v).esp = m.esp - 4 := mov_gpr_self

theorem pushed_gpr (h : r ≠ .esp) : (m.pushed v).gpr r = m.gpr r := mov_gpr_of_ne h

theorem push_eq_some :
    m.push v = some m' ↔ (m.mem.load32 (m.esp - 4)).isSome ∧ m' = m.pushed v := by
  simp only [push, Option.bind_eq_bind, Option.bind_eq_some_iff, Space.store32_eq_some]
  constructor
  · rintro ⟨mem, ⟨h, rfl⟩, hm⟩
    cases hm
    exact ⟨h, rfl⟩
  · rintro ⟨h, rfl⟩
    exact ⟨_, ⟨h, rfl⟩, rfl⟩

theorem pushedAll_mem (vs : List Word) : (m.pushedAll vs).mem = m.mem.pushed m.esp vs := by
  induction vs generalizing m with
  | nil => rfl
  | cons v vs ih =>
      refine (ih (m := m.pushed v)).trans ?_
      rw [pushed_esp]
      rfl

theorem pushedAll_esp (vs : List Word) :
    (m.pushedAll vs).esp = m.esp - BitVec.ofNat 32 (4 * vs.length) := by
  induction vs generalizing m with
  | nil => simp [pushedAll]
  | cons v vs ih =>
      refine (ih (m := m.pushed v)).trans ?_
      rw [pushed_esp, List.length_cons]
      bv_omega

/-- The pushes go through exactly if the pages are there. -/
theorem pushAll_eq_some {vs : List Word} (hlen : 4 * vs.length ≤ 2 ^ 32) :
    m.pushAll vs = some m' ↔
      m.mem.Present (m.esp - BitVec.ofNat 32 (4 * vs.length)) (4 * vs.length) ∧
        m' = m.pushedAll vs := by
  induction vs generalizing m with
  | nil =>
      simp only [pushAll, List.foldlM_nil, pushedAll, List.foldl_nil, List.length_nil]
      constructor
      · intro h
        exact ⟨fun j hj => absurd hj (by omega), (Option.some.inj h).symm⟩
      · rintro ⟨-, rfl⟩
        rfl
  | cons v vs ih =>
      rw [List.length_cons] at hlen ⊢
      have hstep : m.pushAll (v :: vs) = m.push v >>= fun m => m.pushAll vs := rfl
      have hpresent : m.mem.Present (m.esp - BitVec.ofNat 32 (4 * (vs.length + 1)))
          (4 * (vs.length + 1)) ↔ (m.mem.load32 (m.esp - 4)).isSome ∧
            m.mem.Present (m.esp - 4 - BitVec.ofNat 32 (4 * vs.length)) (4 * vs.length) := by
        have haddr : m.esp - BitVec.ofNat 32 (4 * (vs.length + 1)) =
            m.esp - 4 - BitVec.ofNat 32 (4 * vs.length) := by bv_omega
        rw [haddr, Nat.mul_succ, Space.present_add (b := m.esp - 4) (by bv_omega),
          Space.present_four, and_comm]
      rw [hstep, hpresent, Option.bind_eq_bind, Option.bind_eq_some_iff]
      constructor
      · rintro ⟨m₁, hpush, hrest⟩
        obtain ⟨hword, rfl⟩ := push_eq_some.mp hpush
        obtain ⟨h, heq⟩ := (ih (by omega)).mp hrest
        rw [pushed_esp] at h
        exact ⟨⟨hword, (Space.write32_present hword).mp h⟩, heq⟩
      · rintro ⟨⟨hword, h⟩, rfl⟩
        refine ⟨m.pushed v, push_eq_some.mpr ⟨hword, rfl⟩, (ih (by omega)).mpr ⟨?_, rfl⟩⟩
        rw [pushed_esp]
        exact (Space.write32_present hword).mpr h

/-- A push needs the four bytes below the stack pointer, and no page appears. -/
theorem push_present (h : m.push v = some m') :
    m.mem.Present (m.esp - 4) 4 ∧ m'.esp = m.esp - 4 ∧
      ∀ a n, m'.mem.Present a n ↔ m.mem.Present a n := by
  obtain ⟨hword, rfl⟩ := push_eq_some.mp h
  exact ⟨Space.present_four.mpr hword, pushed_esp, fun _ _ => Space.write32_present hword⟩

theorem pushAll_present {vs : List Word} (h : m.pushAll vs = some m') :
    ∀ a n, m'.mem.Present a n ↔ m.mem.Present a n := by
  induction vs generalizing m with
  | nil =>
      obtain rfl := Option.some.inj h
      exact fun _ _ => Iff.rfl
  | cons v vs ih =>
      obtain ⟨m₁, hpush, hrest⟩ := Option.bind_eq_some_iff.mp h
      exact fun a n => (ih hrest a n).trans ((push_present hpush).2.2 a n)

theorem pushad_eq_some (h : m.pushad = some m') :
    m' = m.pushedAll [m.gpr .eax, m.gpr .ecx, m.gpr .edx, m.gpr .ebx, m.esp, m.gpr .ebp,
      m.gpr .esi, m.gpr .edi] := by
  simp only [pushad, Option.bind_eq_bind, Option.bind_eq_some_iff, push_eq_some] at h
  obtain ⟨_, ⟨-, rfl⟩, _, ⟨-, rfl⟩, _, ⟨-, rfl⟩, _, ⟨-, rfl⟩, _, ⟨-, rfl⟩, _, ⟨-, rfl⟩, _, ⟨-, rfl⟩,
    -, rfl⟩ := h
  rfl

/-- The processor leaves the return address, the flags and the stack pointer of
the program on the stack. -/
theorem interruptEntry_eq_some {program : Program} {cs ss : Selector} {esp0 : Word} {mem : Space}
    (h : interruptEntry program cs ss esp0 mem = some m) :
    m = { (Machine.mov { program with mem := mem } .esp esp0).pushedAll
      [ss.setWidth 32, program.gpr .esp, program.eflags, cs.setWidth 32, program.eip] with
        eflags := program.eflags &&& ~~~0x34300#32 } := by
  simp only [interruptEntry, Option.bind_eq_bind, Option.bind_eq_some_iff, push_eq_some] at h
  obtain ⟨_, ⟨-, rfl⟩, _, ⟨-, rfl⟩, _, ⟨-, rfl⟩, _, ⟨-, rfl⟩, _, ⟨-, rfl⟩, hm⟩ := h
  exact (Option.some.inj hm).symm

theorem movSegment_eq_some {s : Seg} {v : Selector} : m.movSegment gdt s v = some m' ↔
    gdt.Loadable 0 v ∧ m' = { m with seg := Function.update m.seg s v } := by
  unfold movSegment
  split_ifs with h
  · simp [h, eq_comm]
  · simp [h]

theorem store_eq_some (h : m.store base offset r = some m') :
    m' = { m with mem := m.mem.write32 (m.gpr base + offset) (m.gpr r) } := by
  unfold store at h
  split_ifs at h
  obtain ⟨mem, hmem, rfl⟩ := Option.map_eq_some_iff.mp h
  rw [(Space.store32_eq_some.mp hmem).2]

theorem load_eq_some : m.load r base offset = some m' ↔
    m.Accessible base ∧ ∃ w, m.mem.load32 (m.gpr base + offset) = some w ∧ m' = m.mov r w := by
  unfold load
  split_ifs with h
  · simp [h, eq_comm]
  · simp [h]

/-- What lies at the base register is loaded. -/
theorem load_of_holds (h : m.mem.Holds (m.gpr base) ws) (ha : m.Accessible base)
    (ho : offset = BitVec.ofNat 32 (4 * i)) (hw : ws[i]? = some w) :
    m.load r base offset = some (m.mov r w) :=
  load_eq_some.mpr ⟨ha, w, h.load (by rw [ho]) hw, rfl⟩

/-! What is on the stack. -/

theorem Stack.pushed (h : m.Stack ws) (hlen : 4 * ws.length + 8 ≤ 2 ^ 32) :
    (m.pushed v).Stack (v :: ws) := by
  rw [Stack, pushed_esp]
  exact Space.Holds.push h hlen

theorem Stack.pushedAll (vs : List Word) (h : m.Stack ws)
    (hlen : 4 * (vs.length + ws.length) + 4 ≤ 2 ^ 32) :
    (m.pushedAll vs).Stack (vs.reverse ++ ws) := by
  induction vs generalizing m ws with
  | nil => exact h
  | cons v vs ih =>
      rw [List.length_cons] at hlen
      rw [List.reverse_cons, List.append_assoc]
      refine ih (h.pushed (by omega)) ?_
      rw [List.singleton_append, List.length_cons]
      omega

theorem Stack.mov (h : m.Stack ws) (hr : r ≠ .esp) : (m.mov r v).Stack ws := by
  rw [Stack, esp, mov_gpr_of_ne hr.symm]
  exact h

theorem Stack.take (h : m.Stack (w :: ws)) :
    m.take = some (w, m.mov .esp (m.esp + 4)) ∧ (m.mov .esp (m.esp + 4)).Stack ws := by
  constructor
  · have hw : m.mem.load32 m.esp = some w := h.load (i := 0) (by simp) rfl
    simp [Machine.take, hw]
  · show m.mem.Holds ((m.mov .esp (m.esp + 4)).gpr .esp) ws
    rw [mov_gpr_self]
    exact h.drop (n := 1) rfl

theorem Stack.push (h : m.Stack ws) (hlen : 4 * ws.length + 8 ≤ 2 ^ 32) (hm : m.push v = some m') :
    m'.Stack (v :: ws) := by
  obtain ⟨-, rfl⟩ := push_eq_some.mp hm
  exact h.pushed hlen

theorem Stack.pop (h : m.Stack (w :: ws)) (hr : r ≠ .esp) (hm : m.pop r = some m') :
    m'.Stack ws := by
  obtain ⟨htake, hs⟩ := h.take
  rw [Machine.pop, htake] at hm
  obtain rfl := Option.some.inj hm
  exact hs.mov hr

theorem Stack.popf (h : m.Stack (w :: ws)) (hm : m.popf = some m') : m'.Stack ws := by
  obtain ⟨htake, hs⟩ := h.take
  rw [Machine.popf, htake] at hm
  obtain rfl := Option.some.inj hm
  exact hs

theorem Stack.movSegment {s : Seg} {v : Selector} (h : m.Stack ws)
    (hm : m.movSegment gdt s v = some m') : m'.Stack ws := by
  obtain ⟨-, rfl⟩ := movSegment_eq_some.mp hm
  exact h

theorem Stack.store (h : m.Stack ws) (hlen : 4 * ws.length + 4 ≤ 2 ^ 32) (hi : i < ws.length)
    (ho : offset = BitVec.ofNat 32 (4 * i)) (hm : m.store .esp offset r = some m') :
    m'.Stack (ws.set i (m.gpr r)) := by
  rw [store_eq_some hm]
  exact Space.Holds.set h hlen hi (by rw [ho])

theorem Stack.load (h : m.Stack ws) (ho : offset = BitVec.ofNat 32 (4 * i))
    (hw : ws[i]? = some w) : m.load r .esp offset = some (m.mov r w) :=
  load_of_holds h (.inl rfl) ho hw

theorem Stack.loadSegment {s : Seg} (h : m.Stack ws) (ho : offset = BitVec.ofNat 32 (4 * i))
    (hw : ws[i]? = some w) :
    m.loadSegment gdt s .esp offset = m.movSegment gdt s (w.setWidth 16) := by
  have hload : m.mem.load32 (m.esp + offset) = some w := Space.Holds.load h (by rw [ho]) hw
  rw [Machine.loadSegment, if_pos (.inl rfl), Space.load16_of_load32 hload]
  rfl

/-- The five words that `iret` takes. -/
theorem Stack.iret {eip cs eflags esp ss : Word} (h : m.Stack (eip :: cs :: eflags :: esp :: ss :: ws))
    (hcs : gdt.UserCode (cs.setWidth 16)) (hss : gdt.UserStack (ss.setWidth 16)) :
    m.iret gdt = some {
      gpr := Function.update m.gpr .esp esp
      seg := fun s => gdt.leave (m.seg s)
      eflags := eflags
      eip := eip } := by
  obtain ⟨h₁, hs₁⟩ := h.take
  obtain ⟨h₂, hs₂⟩ := hs₁.take
  obtain ⟨h₃, hs₃⟩ := hs₂.take
  obtain ⟨h₄, hs₄⟩ := hs₃.take
  obtain ⟨h₅, -⟩ := hs₄.take
  simp only [Machine.iret, h₁, h₂, h₃, h₄, h₅, Option.bind_eq_bind, Option.bind_some]
  rw [if_pos ⟨hcs, hss⟩]
  simp only [mov_mov, mov_seg]
  rfl

end Machine

end X86
