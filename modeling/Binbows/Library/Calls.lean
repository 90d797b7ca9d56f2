/-
Binbows/Library/Calls.lean

Programs that make calls to a system.

A program returns, fails, or makes a call and goes on with the reply; what a call
does is not part of it.  A trace of a program is the calls that it makes with the
replies that it gets, up to its return (`Trace`).  A system is a handler, and its
runs say which replies it gives (`Exec`).  A program that has the system for
itself runs as `run` says, and that is a trace that the system gives
(`run_eq_ok_iff`); two programs that share the system make two traces that are
merged in some order (`Shared`).

What a program does with every reply is a fact about its traces (`Ensures`).

A protocol says which calls a program may make in the phase that it is in, and which
replies it may count on.  A program that follows its protocol (`Follows`) does what
it promises, on its own (`Follows.run`), and next to another that follows its own
(`Shared.follows`).
-/
import Mathlib.Data.List.Basic
import Mathlib.Logic.Basic

namespace Calls

/-- A program with calls `Call`, answered by `Reply`, and faults `Err`. -/
inductive Program (Call Reply Err : Type) (α : Type)
  | ret (a : α)
  | fail (e : Err)
  | call (c : Call) (next : Reply → Program Call Reply Err α)

variable {Call Reply Err α β σ : Type}

namespace Program

/-- Run the second program on the result of the first. -/
def bind (p : Program Call Reply Err α) (f : α → Program Call Reply Err β) :
    Program Call Reply Err β :=
  match p with
  | .ret a => f a
  | .fail e => .fail e
  | .call c next => .call c fun r => (next r).bind f

instance : Monad (Program Call Reply Err) where
  pure := .ret
  bind := bind

/-- Programs compose as they should. -/
instance : LawfulMonad (Program Call Reply Err) := by
  refine LawfulMonad.mk' _ (fun p => ?_) (fun _ _ => rfl) fun p f g => ?_
  · show p.bind .ret = p
    induction p with
    | ret a => rfl
    | fail e => rfl
    | call c next ih =>
        rw [bind]
        congr 1
        funext r
        exact ih r
  · show (p.bind f).bind g = p.bind fun a => (f a).bind g
    induction p with
    | ret a => rfl
    | fail e => rfl
    | call c next ih =>
        rw [bind, bind, bind]
        congr 1
        funext r
        exact ih r

/-- Make a call and return the reply. -/
def ask (c : Call) : Program Call Reply Err Reply := .call c .ret

/-- A computation that makes no call. -/
def ofExcept : Except Err α → Program Call Reply Err α
  | .ok a => .ret a
  | .error e => .fail e

/-! ### Traces -/

/-- The program makes these calls, gets these replies, and returns. -/
def Trace : Program Call Reply Err α → List (Call × Reply) → α → Prop
  | .ret a, l, b => l = [] ∧ a = b
  | .fail _, _, _ => False
  | .call c next, l, b => ∃ r l', l = (c, r) :: l' ∧ (next r).Trace l' b

variable {p : Program Call Reply Err α} {f : α → Program Call Reply Err β}
  {l : List (Call × Reply)} {a : α} {b : β}

@[simp] theorem trace_pure {a' : α} :
    (pure a : Program Call Reply Err α).Trace l a' ↔ l = [] ∧ a = a' := Iff.rfl

@[simp] theorem trace_fail {e : Err} :
    ¬ (fail e : Program Call Reply Err α).Trace l a := id

@[simp] theorem trace_ask {c : Call} {r : Reply} :
    (ask c : Program Call Reply Err Reply).Trace l r ↔ l = [(c, r)] := by
  constructor
  · rintro ⟨r', l', rfl, rfl, rfl⟩
    rfl
  · rintro rfl
    exact ⟨r, [], rfl, rfl, rfl⟩

@[simp] theorem trace_ofExcept {x : Except Err α} :
    (ofExcept x : Program Call Reply Err α).Trace l a ↔ l = [] ∧ x = .ok a := by
  cases x with
  | ok a' =>
      show l = [] ∧ a' = a ↔ _
      simp
  | error e =>
      show False ↔ _
      simp

/-- A trace of a composed program splits where the first part returns. -/
theorem trace_bind : (p >>= f).Trace l b ↔
    ∃ l₁ a l₂, l = l₁ ++ l₂ ∧ p.Trace l₁ a ∧ (f a).Trace l₂ b := by
  show (p.bind f).Trace l b ↔ _
  induction p generalizing l with
  | ret a =>
      constructor
      · intro h
        exact ⟨[], a, l, rfl, ⟨rfl, rfl⟩, h⟩
      · rintro ⟨l₁, a', l₂, rfl, ⟨rfl, rfl⟩, h⟩
        exact h
  | fail e =>
      constructor
      · intro h
        exact absurd h trace_fail
      · rintro ⟨l₁, a', l₂, rfl, h, -⟩
        exact absurd h trace_fail
  | call c next ih =>
      constructor
      · rintro ⟨r, l', rfl, h⟩
        obtain ⟨l₁, a, l₂, rfl, h₁, h₂⟩ := (ih r).mp h
        exact ⟨(c, r) :: l₁, a, l₂, rfl, ⟨r, l₁, rfl, h₁⟩, h₂⟩
      · rintro ⟨-, a, l₂, rfl, ⟨r, l₁, rfl, h₁⟩, h₂⟩
        exact ⟨r, l₁ ++ l₂, rfl, (ih r).mpr ⟨l₁, a, l₂, rfl, h₁, h₂⟩⟩

/-- The program makes these calls, gets these replies, and stops with a fault. -/
def Stops : Program Call Reply Err α → List (Call × Reply) → Err → Prop
  | .ret _, _, _ => False
  | .fail e, l, e' => l = [] ∧ e = e'
  | .call c next, l, e => ∃ r l', l = (c, r) :: l' ∧ (next r).Stops l' e

@[simp] theorem not_stops_pure {e : Err} : ¬ (pure a : Program Call Reply Err α).Stops l e := id

@[simp] theorem not_stops_ask {c : Call} {e : Err} :
    ¬ (ask c : Program Call Reply Err Reply).Stops l e := by
  rintro ⟨r, l', -, h⟩
  exact h

@[simp] theorem stops_ofExcept {x : Except Err α} {e : Err} :
    (ofExcept x : Program Call Reply Err α).Stops l e ↔ l = [] ∧ x = .error e := by
  cases x with
  | ok a' =>
      show False ↔ _
      simp
  | error e' =>
      show l = [] ∧ e' = e ↔ _
      simp

/-- A composed program stops in its first part, or behind it. -/
theorem stops_bind {e : Err} : (p >>= f).Stops l e ↔
    p.Stops l e ∨ ∃ l₁ a l₂, l = l₁ ++ l₂ ∧ p.Trace l₁ a ∧ (f a).Stops l₂ e := by
  show (p.bind f).Stops l e ↔ _
  induction p generalizing l with
  | ret a =>
      constructor
      · intro h
        exact .inr ⟨[], a, l, rfl, ⟨rfl, rfl⟩, h⟩
      · rintro (h | ⟨l₁, a', l₂, rfl, ⟨rfl, rfl⟩, h⟩)
        · exact absurd h id
        · exact h
  | fail e' =>
      constructor
      · exact .inl
      · rintro (h | ⟨l₁, a, l₂, rfl, h, -⟩)
        · exact h
        · exact absurd h trace_fail
  | call c next ih =>
      constructor
      · rintro ⟨r, l', rfl, h⟩
        rcases (ih r).mp h with h | ⟨l₁, a, l₂, rfl, h₁, h₂⟩
        · exact .inl ⟨r, l', rfl, h⟩
        · exact .inr ⟨(c, r) :: l₁, a, l₂, rfl, ⟨r, l₁, rfl, h₁⟩, h₂⟩
      · rintro (⟨r, l', rfl, h⟩ | ⟨-, a, l₂, rfl, ⟨r, l₁, rfl, h₁⟩, h₂⟩)
        · exact ⟨r, l', rfl, (ih r).mpr (.inl h)⟩
        · exact ⟨r, l₁ ++ l₂, rfl, (ih r).mpr (.inr ⟨l₁, a, l₂, rfl, h₁, h₂⟩)⟩

/-- A program that stops with a fault does not return. -/
theorem Stops.not_trace {e : Err} (h : p.Stops l e) : ¬ p.Trace l a := by
  induction p generalizing l with
  | ret a' => exact absurd h id
  | fail e' => exact trace_fail
  | call c next ih =>
      rintro ⟨r, l', rfl, htrace⟩
      obtain ⟨r', l'', heq, hstop⟩ := h
      cases heq
      exact ih r hstop htrace

/-! ### What holds whenever a program returns -/

/-- Whatever the replies are, what the program returns satisfies `Q`. -/
def Ensures (p : Program Call Reply Err α) (Q : α → Prop) : Prop := ∀ ⦃l a⦄, p.Trace l a → Q a

variable {P : α → Prop} {Q : β → Prop}

theorem ensures_pure (h : P a) : (pure a : Program Call Reply Err α).Ensures P := by
  rintro l a' ⟨-, rfl⟩
  exact h

theorem Ensures.bind (hp : p.Ensures P) (hf : ∀ a, P a → (f a).Ensures Q) :
    (p >>= f).Ensures Q := by
  intro l b h
  obtain ⟨l₁, a, l₂, -, h₁, h₂⟩ := trace_bind.mp h
  exact hf a (hp h₁) h₂

/-- The result of the first part does not matter. -/
theorem ensures_seq (hf : ∀ a, (f a).Ensures Q) : (p >>= f).Ensures Q :=
  Ensures.bind (P := fun _ => True) (fun _ _ _ => trivial) fun a _ => hf a

/-! ### A program on its own -/

/-- Run a program on a system: the handler answers each call. -/
def run (handler : Call → σ → Except Err (Reply × σ)) :
    Program Call Reply Err α → σ → Except Err (α × σ)
  | .ret a, s => .ok (a, s)
  | .fail e, _ => .error e
  | .call c next, s =>
      match handler c s with
      | .error e => .error e
      | .ok (r, s') => (next r).run handler s'

end Program

/-- The system answers these calls with these replies, one after the other. -/
def Exec (handler : Call → σ → Except Err (Reply × σ)) : σ → List (Call × Reply) → σ → Prop
  | s, [], s' => s = s'
  | s, (c, r) :: l, s' => ∃ s₁, handler c s = .ok (r, s₁) ∧ Exec handler s₁ l s'

variable {handler : Call → σ → Except Err (Reply × σ)} {s s' s'' : σ}
  {p : Program Call Reply Err α} {l l' : List (Call × Reply)} {c : Call} {r : Reply} {a : α}

@[simp] theorem exec_nil : Exec handler s [] s' ↔ s = s' := Iff.rfl

@[simp] theorem exec_cons : Exec handler s ((c, r) :: l) s' ↔
    ∃ s₁, handler c s = .ok (r, s₁) ∧ Exec handler s₁ l s' := Iff.rfl

theorem exec_append : Exec handler s (l ++ l') s' ↔
    ∃ s₁, Exec handler s l s₁ ∧ Exec handler s₁ l' s' := by
  induction l generalizing s with
  | nil => simp
  | cons e l ih =>
      obtain ⟨c, r⟩ := e
      rw [List.cons_append, exec_cons]
      constructor
      · rintro ⟨s₁, h, hl⟩
        obtain ⟨s₂, hl, hl'⟩ := ih.mp hl
        exact ⟨s₂, ⟨s₁, h, hl⟩, hl'⟩
      · rintro ⟨s₂, ⟨s₁, h, hl⟩, hl'⟩
        exact ⟨s₁, h, ih.mpr ⟨s₂, hl, hl'⟩⟩

/-- A program on its own makes a trace that the system gives. -/
theorem Program.run_eq_ok_iff :
    p.run handler s = .ok (a, s') ↔ ∃ l, p.Trace l a ∧ Exec handler s l s' := by
  induction p generalizing s with
  | ret a' =>
      constructor
      · intro h
        cases h
        exact ⟨[], ⟨rfl, rfl⟩, rfl⟩
      · rintro ⟨l, ⟨rfl, rfl⟩, rfl⟩
        rfl
  | fail e =>
      constructor
      · intro h
        cases h
      · rintro ⟨l, h, -⟩
        exact absurd h trace_fail
  | call c next ih =>
      rw [Program.run]
      constructor
      · intro h
        cases hc : handler c s with
        | error e =>
            rw [hc] at h
            cases h
        | ok rs =>
            obtain ⟨r, s₁⟩ := rs
            rw [hc] at h
            obtain ⟨l, ht, he⟩ := (ih r).mp h
            exact ⟨(c, r) :: l, ⟨r, l, rfl, ht⟩, s₁, hc, he⟩
      · rintro ⟨-, ⟨r, l, rfl, ht⟩, s₁, hc, he⟩
        rw [hc]
        exact (ih r).mpr ⟨l, ht, he⟩

/-- A program that stops on what the system answers has that fault there. -/
theorem Program.run_eq_error {e : Err} (h : p.Stops l e) (hexec : Exec handler s l s') :
    p.run handler s = .error e := by
  induction p generalizing l s with
  | ret a' => exact absurd h id
  | fail e' =>
      obtain ⟨-, rfl⟩ := h
      rfl
  | call c next ih =>
      obtain ⟨r, l', rfl, hstop⟩ := h
      obtain ⟨s₁, hc, hexec'⟩ := hexec
      rw [Program.run, hc]
      exact ih r hstop hexec'

/-- One program after the other, on a system. -/
theorem Program.run_bind {f : α → Program Call Reply Err β} :
    (p >>= f).run handler s = p.run handler s >>= fun r => (f r.1).run handler r.2 := by
  show (p.bind f).run handler s = _
  induction p generalizing s with
  | ret a => rfl
  | fail e => rfl
  | call c next ih =>
      rw [Program.bind, Program.run, Program.run]
      cases handler c s with
      | error e => rfl
      | ok rs => exact ih rs.1

theorem Program.run_bind_eq_ok {f : α → Program Call Reply Err β} {b : β} :
    (p >>= f).run handler s = .ok (b, s'') ↔
      ∃ a s', p.run handler s = .ok (a, s') ∧ (f a).run handler s' = .ok (b, s'') := by
  simp only [run_eq_ok_iff, trace_bind]
  constructor
  · rintro ⟨-, ⟨l₁, a, l₂, rfl, h₁, h₂⟩, he⟩
    obtain ⟨s', he₁, he₂⟩ := exec_append.mp he
    exact ⟨a, s', ⟨l₁, h₁, he₁⟩, l₂, h₂, he₂⟩
  · rintro ⟨a, s', ⟨l₁, h₁, he₁⟩, l₂, h₂, he₂⟩
    exact ⟨l₁ ++ l₂, ⟨l₁, a, l₂, rfl, h₁, h₂⟩, exec_append.mpr ⟨s', he₁, he₂⟩⟩

theorem Program.run_ofExcept_eq_ok {x : Except Err α} :
    (Program.ofExcept x : Program Call Reply Err α).run handler s = .ok (a, s') ↔
      x = .ok a ∧ s = s' := by
  simp [run_eq_ok_iff]

theorem Program.Ensures.of_run {Q : α → Prop} (hp : p.Ensures Q)
    (h : p.run handler s = .ok (a, s')) : Q a := by
  obtain ⟨l, ht, -⟩ := run_eq_ok_iff.mp h
  exact hp ht

/-! ### Two programs on one system -/

/-- The part of a merged trace that belongs to one of the two. -/
def side (who : Bool) (l : List (Bool × Call × Reply)) : List (Call × Reply) :=
  (l.filter fun e => e.1 = who).map Prod.snd

/-- Two programs on one system, in some interleaving of their calls. -/
def Shared (handler : Call → σ → Except Err (Reply × σ)) (p : Program Call Reply Err α)
    (q : Program Call Reply Err β) (s : σ) (l : List (Bool × Call × Reply)) (a : α) (b : β)
    (s' : σ) : Prop :=
  p.Trace (side true l) a ∧ q.Trace (side false l) b ∧ Exec handler s (l.map Prod.snd) s'

variable {q : Program Call Reply Err β} {lq : List (Bool × Call × Reply)} {b : β}

@[simp] theorem side_self {who : Bool} : side who ((who, c, r) :: lq) = (c, r) :: side who lq := by
  simp [side]

@[simp] theorem side_other {who who' : Bool} (h : who' ≠ who) :
    side who ((who', c, r) :: lq) = side who lq := by
  simp [side, h]

/-- The first program makes a call, and then they go on. -/
theorem Shared.left {next : Reply → Program Call Reply Err α} (hc : handler c s = .ok (r, s'))
    (h : Shared handler (next r) q s' lq a b s'') :
    Shared handler (.call c next) q s ((true, c, r) :: lq) a b s'' := by
  obtain ⟨hp, hq, hexec⟩ := h
  refine ⟨?_, ?_, s', hc, hexec⟩
  · rw [side_self]
    exact ⟨r, _, rfl, hp⟩
  · rwa [side_other (by decide)]

/-- The second makes a call. -/
theorem Shared.right {next : Reply → Program Call Reply Err β} (hc : handler c s = .ok (r, s'))
    (h : Shared handler p (next r) s' lq a b s'') :
    Shared handler p (.call c next) s ((false, c, r) :: lq) a b s'' := by
  obtain ⟨hp, hq, hexec⟩ := h
  refine ⟨?_, ?_, s', hc, hexec⟩
  · rwa [side_other (by decide)]
  · rw [side_self]
    exact ⟨r, _, rfl, hq⟩

/-- One program may come after the other. -/
theorem shared_of_runs (hp : p.run handler s = .ok (a, s')) (hq : q.run handler s' = .ok (b, s'')) :
    ∃ l, Shared handler p q s l a b s'' := by
  -- by the calls of the first, and where it has returned by those of the second
  induction p generalizing s with
  | ret a' =>
      cases hp
      induction q generalizing s' with
      | ret b' =>
          cases hq
          exact ⟨[], ⟨rfl, rfl⟩, ⟨rfl, rfl⟩, rfl⟩
      | fail e => cases hq
      | call c next ih =>
          rw [Program.run] at hq
          cases hc : handler c s' with
          | error e =>
              rw [hc] at hq
              cases hq
          | ok rs =>
              obtain ⟨r, s₁⟩ := rs
              rw [hc] at hq
              obtain ⟨l, hl⟩ := ih r hq
              exact ⟨_, hl.right hc⟩
  | fail e => cases hp
  | call c next ih =>
      rw [Program.run] at hp
      cases hc : handler c s with
      | error e =>
          rw [hc] at hp
          cases hp
      | ok rs =>
          obtain ⟨r, s₁⟩ := rs
          rw [hc] at hp
          obtain ⟨l, hl⟩ := ih r hp
          exact ⟨_, hl.left hc⟩

/-- The two sides may be exchanged. -/
theorem Shared.symm (h : Shared handler p q s lq a b s') :
    Shared handler q p s (lq.map fun e => (!e.1, e.2)) b a s' := by
  obtain ⟨hp, hq, hexec⟩ := h
  have hside : ∀ who, side who (lq.map fun e => (!e.1, e.2)) = side (!who) lq := by
    intro who
    unfold side
    rw [List.filter_map, List.map_map]
    congr 1
    apply List.filter_congr
    rintro ⟨who', c, r⟩ -
    cases who <;> cases who' <;> rfl
  refine ⟨?_, ?_, ?_⟩
  · rwa [hside]
  · rwa [hside]
  · rwa [List.map_map]

/-! ### Protocols -/

/-- What a program may do in the phase that it is in: which calls it may make, which
replies it may count on, and the phase that a reply leads to. -/
structure Protocol (Call Reply Phase : Type) where
  good : Phase → Call → Prop
  valid : Call → Reply → Prop
  next : Phase → Call → Reply → Phase

variable {Phase Phase' : Type} {k : Protocol Call Reply Phase} {k' : Protocol Call Reply Phase'}
  {E : Phase → Err → Prop} {E' : Phase' → Err → Prop} {g : Phase} {g' : Phase'}

namespace Program

/-- From a phase on, while the replies are valid: the calls are good, a fault satisfies
`E`, and the result `Q`, in the phase that the program is in then. -/
def Follows (k : Protocol Call Reply Phase) (E : Phase → Err → Prop) :
    Program Call Reply Err α → Phase → (Phase → α → Prop) → Prop
  | .ret a, g, Q => Q g a
  | .fail e, g, _ => E g e
  | .call c next, g, Q =>
      k.good g c ∧ ∀ r, k.valid c r → (next r).Follows k E (k.next g c r) Q

variable {f : α → Program Call Reply Err β} {Q Q' : Phase → α → Prop} {R : Phase → β → Prop}

theorem follows_pure (h : Q g a) : (pure a : Program Call Reply Err α).Follows k E g Q := h

theorem follows_ask {Q : Phase → Reply → Prop} (hc : k.good g c)
    (h : ∀ r, k.valid c r → Q (k.next g c r) r) :
    (ask c : Program Call Reply Err Reply).Follows k E g Q :=
  ⟨hc, h⟩

theorem follows_ofExcept {x : Except Err α} (herr : ∀ e, x = .error e → E g e)
    (hok : ∀ a, x = .ok a → Q g a) : (ofExcept x : Program Call Reply Err α).Follows k E g Q := by
  cases x with
  | ok a => exact hok a rfl
  | error e => exact herr e rfl

theorem Follows.mono (h : p.Follows k E g Q) (hQ : ∀ g a, Q g a → Q' g a) :
    p.Follows k E g Q' := by
  induction p generalizing g with
  | ret a => exact hQ g a h
  | fail e => exact h
  | call c next ih =>
      refine ⟨h.1, fun r hr => ?_⟩
      exact ih r (h.2 r hr)

/-- One program after the other. -/
theorem Follows.bind (h : p.Follows k E g Q) (hf : ∀ g a, Q g a → (f a).Follows k E g R) :
    (p >>= f).Follows k E g R := by
  show (p.bind f).Follows k E g R
  induction p generalizing g with
  | ret a => exact hf g a h
  | fail e => exact h
  | call c next ih =>
      refine ⟨h.1, fun r hr => ?_⟩
      exact ih r (h.2 r hr)

end Program

/-- The system keeps its side of a protocol: in the states of `I` it answers every good
call with a valid reply, and `I` holds in the phase that this leads to. -/
def Upholds (handler : Call → σ → Except Err (Reply × σ)) (k : Protocol Call Reply Phase)
    (I : Phase → σ → Prop) : Prop :=
  ∀ g c s, I g s → k.good g c →
    ∃ r s', handler c s = .ok (r, s') ∧ k.valid c r ∧ I (k.next g c r) s'

/-- **On its own a program returns as it promises**, or it stops with a fault that it
allows for.  What its good calls preserve of the calls made so far holds at the end. -/
theorem Program.Follows.run_history {Q : Phase → α → Prop} {I : Phase → σ → Prop}
    {J : Phase → List (Call × Reply) → Prop} {h : List (Call × Reply)}
    (hp : p.Follows k E g Q) (hsys : Upholds handler k I) (hs : I g s) (hj : J g h)
    (hcall : ∀ {g h c r}, J g h → k.good g c → J (k.next g c r) (h ++ [(c, r)])) :
    ∃ l g₁ s', Exec handler s l s' ∧ I g₁ s' ∧ J g₁ (h ++ l) ∧
      ((∃ a, p.Trace l a ∧ Q g₁ a) ∨ ∃ e, p.Stops l e ∧ E g₁ e) := by
  induction p generalizing g s h with
  | ret a =>
      refine ⟨[], g, s, rfl, hs, ?_, .inl ⟨a, ⟨rfl, rfl⟩, hp⟩⟩
      rwa [List.append_nil]
  | fail e =>
      refine ⟨[], g, s, rfl, hs, ?_, .inr ⟨e, ⟨rfl, rfl⟩, hp⟩⟩
      rwa [List.append_nil]
  | call c next ih =>
      obtain ⟨r, s₁, hanswer, hvalid, hs₁⟩ := hsys g c s hs hp.1
      obtain ⟨l, g₁, s', hexec, hs', hj', hend⟩ := ih r (hp.2 r hvalid) hs₁ (hcall hj hp.1)
      refine ⟨(c, r) :: l, g₁, s', ⟨s₁, hanswer, hexec⟩, hs', ?_, ?_⟩
      · rwa [List.append_assoc, List.singleton_append] at hj'
      · rcases hend with ⟨a, htrace, hq⟩ | ⟨e, hstop, he⟩
        · exact .inl ⟨a, ⟨r, l, rfl, htrace⟩, hq⟩
        · exact .inr ⟨e, ⟨r, l, rfl, hstop⟩, he⟩

theorem Program.Follows.run {Q : Phase → α → Prop} {I : Phase → σ → Prop}
    (hp : p.Follows k E g Q) (hsys : Upholds handler k I) (hs : I g s) :
    ∃ l g₁ s', Exec handler s l s' ∧ I g₁ s' ∧
      ((∃ a, p.Trace l a ∧ Q g₁ a) ∨ ∃ e, p.Stops l e ∧ E g₁ e) := by
  obtain ⟨l, g₁, s', hexec, hs', -, hend⟩ :=
    hp.run_history (J := fun _ _ => True) (h := []) hsys hs trivial fun _ _ => trivial
  exact ⟨l, g₁, s', hexec, hs', hend⟩

/-- A fact about the states that the calls keep may be added to what a system upholds. -/
theorem Upholds.and {I I' : Phase → σ → Prop} (h : Upholds handler k I)
    (h' : ∀ {g c s r s'}, I g s → I' g s → k.good g c → handler c s = .ok (r, s') →
      I' (k.next g c r) s') : Upholds handler k fun g s => I g s ∧ I' g s := by
  rintro g c s ⟨hs, hs'⟩ hc
  obtain ⟨r, s₁, hcall, hvalid, hs₁⟩ := h g c s hs hc
  exact ⟨r, s₁, hcall, hvalid, hs₁, h' hs hs' hc hcall⟩

/-- A run that is given comes to where the program promises. -/
theorem Program.Follows.of_run {Q : Phase → α → Prop} {I : Phase → σ → Prop}
    (hp : p.Follows k E g Q) (hsys : Upholds handler k I) (hs : I g s)
    (hrun : p.run handler s = .ok (a, s')) : ∃ g₁, Q g₁ a ∧ I g₁ s' := by
  induction p generalizing g s with
  | ret a =>
      cases hrun
      exact ⟨g, hp, hs⟩
  | fail e => cases hrun
  | call c next ih =>
      obtain ⟨r, s₁, hcall, hvalid, hs₁⟩ := hsys g c s hs hp.1
      rw [Program.run, hcall] at hrun
      exact ih r (hp.2 r hvalid) hs₁ hrun

/-- **Two programs that follow their protocols do so together**, in every interleaving:
what holds in the phases of both at first holds in those that they return in, where
each call of either keeps it. -/
theorem Shared.follows {Q : Phase → α → Prop} {R : Phase' → β → Prop}
    {J : Phase → Phase' → σ → Prop} (h : Shared handler p q s lq a b s')
    (hp : p.Follows k E g Q) (hq : q.Follows k' E' g' R) (hs : J g g' s)
    (hleft : ∀ g g' c s r s', J g g' s → k.good g c → (true, c, r) ∈ lq →
      handler c s = .ok (r, s') → k.valid c r ∧ J (k.next g c r) g' s')
    (hright : ∀ g g' c s r s', J g g' s → k'.good g' c → (false, c, r) ∈ lq →
      handler c s = .ok (r, s') → k'.valid c r ∧ J g (k'.next g' c r) s') :
    ∃ g₁ g₁', Q g₁ a ∧ R g₁' b ∧ J g₁ g₁' s' := by
  obtain ⟨htp, htq, hexec⟩ := h
  -- by the merged trace: the invariant is about both phases
  induction lq generalizing s p q g g' with
  | nil =>
      obtain rfl := exec_nil.mp hexec
      -- both traces are at their end
      cases p with
      | ret a' =>
          cases q with
          | ret b' =>
              obtain ⟨-, rfl⟩ := htp
              obtain ⟨-, rfl⟩ := htq
              exact ⟨g, g', hp, hq, hs⟩
          | fail e => exact absurd htq Program.trace_fail
          | call c next =>
              obtain ⟨r, l', hnil, -⟩ := htq
              cases hnil
      | fail e => exact absurd htp Program.trace_fail
      | call c next =>
          obtain ⟨r, l', hnil, -⟩ := htp
          cases hnil
  | cons e lq ih =>
      obtain ⟨who, c, r⟩ := e
      obtain ⟨s₁, hcall, hrest⟩ := exec_cons.mp hexec
      -- the later calls are among all calls
      have hleft' : ∀ g g' c' s r' s', J g g' s → k.good g c' → (true, c', r') ∈ lq →
          handler c' s = .ok (r', s') → k.valid c' r' ∧ J (k.next g c' r') g' s' :=
        fun g g' c' s r' s' hj hc hmem => hleft g g' c' s r' s' hj hc (.tail _ hmem)
      have hright' : ∀ g g' c' s r' s', J g g' s → k'.good g' c' → (false, c', r') ∈ lq →
          handler c' s = .ok (r', s') → k'.valid c' r' ∧ J g (k'.next g' c' r') s' :=
        fun g g' c' s r' s' hj hc hmem => hright g g' c' s r' s' hj hc (.tail _ hmem)
      cases who with
      | true =>
          rw [side_self] at htp
          rw [side_other (by decide)] at htq
          cases p with
          | ret a' => exact absurd htp.1 (by simp)
          | fail e => exact absurd htp Program.trace_fail
          | call c' next =>
              obtain ⟨r', l', heq, htp⟩ := htp
              cases heq
              -- the first side moves, and the phase of the other stays
              obtain ⟨hvalid, hs₁⟩ := hleft g g' c s r s₁ hs hp.1 List.mem_cons_self hcall
              exact ih (hp.2 r hvalid) hq hs₁ hleft' hright' htp htq hrest
      | false =>
          rw [side_self] at htq
          rw [side_other (by decide)] at htp
          cases q with
          | ret b' => exact absurd htq.1 (by simp)
          | fail e => exact absurd htq Program.trace_fail
          | call c' next =>
              obtain ⟨r', l', heq, htq⟩ := htq
              cases heq
              -- and the other way round
              obtain ⟨hvalid, hs₁⟩ := hright g g' c s r s₁ hs hq.1 List.mem_cons_self hcall
              exact ih hp (hq.2 r hvalid) hs₁ hleft' hright' htp htq hrest

end Calls
