/-
Binbows/Library/MovePairs.lean

Two moves on one map, one step at a time.

A move finds its source and reads the value there; it finds its destination and writes a
copy where nothing is and where there is room; it takes the source out, if it finds that
again (`Store.Step`).  Alone it does all of this, or nothing (`Store.alone`).  Two moves
take such steps in any order (`Store.Runs`).

Most runs end as if one move had come after the other.  There are two that do not
(`Store.Anomaly`): both moves read the same source before it was taken out, and both copies
stay; or one finds no room next to the other's copy, where it has room before the other and
after it.

The invariant (`Led`) names the move that wrote first, and says of the second what it would
find before the first, or behind it.

Main results: `serial_iff`, for the end of every run; and `serializable_iff`: all runs of two
moves are serial iff the map has no such end for them (`Store.Clash`), as where it has one
some run comes to it (`Store.Anomaly.runs`).
-/
import Binbows.Library.Moves
import Mathlib.Logic.Relation
import Mathlib.Tactic.Push
import Mathlib.Tactic.SplitIfs

namespace Moves

open Relation

/-! ### A move in steps -/

/-- Where a move finds its source and its destination: it may find none, and looking for
one may fail.  Once the copy is made it may find the source again, or leave it. -/
structure Plan (E K : Type*) where
  src : Except E (Option K)
  dst : Except E (Option K)
  erases : Bool

/-- How far a move is. -/
inductive Progress (V : Type*)
  | start
  | unreadable
  | loaded (x : V)
  | refused
  | copied (x : V)
  | moved (x : V)

/-- What a map holds: which values are copied, what a copy is, and where there is room for
one.  Taking something out makes no room smaller. -/
structure Store (K V : Type*) [DecidableEq K] where
  fits : V → Prop
  copy : V → V
  room : (K → Option V) → K → Prop
  room_erase : ∀ {F k k'}, room F k → room (Function.update F k' none) k

variable {E K V : Type*} [DecidableEq K] {R : Store K V} {P Q : Plan E K} {m m' : Move K}
  {F F' G F₀ : K → Option V} {x y z : V} {k k' : K} {p p' q q' : Progress V} {gone gone' : Bool}

/-- The move that a plan comes to. -/
structure Plan.Is (P : Plan E K) (m : Move K) : Prop where
  src : P.src = .ok (some m.src)
  dst : P.dst = .ok (some m.dst)

/-- One step of a move. -/
inductive Store.Step (R : Store K V) (P : Plan E K) :
    Progress V → (K → Option V) → Progress V → (K → Option V) → Prop
  | fail {F : K → Option V} {k : K} : P.src = .ok (some k) → Unreadable R.fits F k →
      R.Step P .start F .unreadable F
  | load {F : K → Option V} {k : K} {x : V} : P.src = .ok (some k) → F k = some x → R.fits x →
      R.Step P .start F (.loaded x) F
  | refuse {F : K → Option V} {k : K} {x : V} : P.dst = .ok (some k) → F k ≠ none ∨ ¬ R.room F k →
      R.Step P (.loaded x) F .refused F
  | write {F : K → Option V} {k : K} {x : V} : P.dst = .ok (some k) → F k = none → R.room F k →
      R.Step P (.loaded x) F (.copied x) (Function.update F k (some (R.copy x)))
  | erase {F : K → Option V} {k : K} {x : V} : P.src = .ok (some k) → P.erases = true →
      R.Step P (.copied x) F (.moved x) (Function.update F k none)

/-- The move is over. -/
def Plan.Ended (P : Plan E K) : Progress V → Prop
  | .start => P.src = .ok none
  | .loaded _ => P.dst = .ok none
  | .copied _ => P.erases = false
  | _ => True

/-- The move finds everything as it needs it. -/
structure Store.Succeeds (R : Store K V) (P : Plan E K) (F : K → Option V) (m : Move K) (x : V) :
    Prop where
  plan : P.Is m
  copies : m.Copies R.fits F x
  room : R.room F m.dst

/-- The map behind a move that copied `x`. -/
def Store.result (R : Store K V) (P : Plan E K) (m : Move K) (F : K → Option V) (x : V) :
    K → Option V :=
  m.stage F (R.copy x) P.erases

open Classical in
/-- The map behind a move that is alone; `none` where it fails to find its source or, with
the value in hand, its destination. -/
noncomputable def Store.alone (R : Store K V) (P : Plan E K) (F : K → Option V) :
    Option (K → Option V) :=
  match P.src with
  | .error _ => none
  | .ok none => some F
  | .ok (some k) =>
      match F k with
      | none => some F
      | some x =>
          if R.fits x then
            match P.dst with
            | .error _ => none
            | .ok none => some F
            | .ok (some k') =>
                if F k' = none ∧ R.room F k' then
                  some (R.result P ⟨k, k'⟩ F x)
                else some F
          else some F

/-! ### One move -/

theorem Store.Succeeds.alone (h : R.Succeeds P F m x) :
    R.alone P F = some (R.result P m F x) := by
  unfold Store.alone
  rw [h.plan.src]
  dsimp only
  rw [h.copies.source]
  dsimp only
  rw [if_pos h.copies.fits, h.plan.dst]
  exact if_pos ⟨h.copies.fresh, h.room⟩

theorem alone_idle (h : P.src = .ok none) : R.alone P F = some F := by
  unfold Store.alone
  rw [h]

theorem alone_unreadable (h : P.src = .ok (some k)) (hk : Unreadable R.fits F k) :
    R.alone P F = some F := by
  unfold Store.alone
  rw [h]
  dsimp only
  cases hx : F k with
  | none => rfl
  | some x => exact if_neg (hk x hx)

theorem alone_nowhere (h : P.src = .ok (some k)) (h' : P.dst = .ok none) :
    R.alone P F = some F := by
  unfold Store.alone
  rw [h]
  dsimp only
  cases hx : F k with
  | none => rfl
  | some x =>
      dsimp only
      rw [h']
      split_ifs
      · rfl
      · rfl

theorem alone_refused (h : P.Is m) (hm : F m.dst ≠ none ∨ ¬ R.room F m.dst) :
    R.alone P F = some F := by
  unfold Store.alone
  rw [h.src]
  dsimp only
  cases hx : F m.src with
  | none => rfl
  | some x =>
      dsimp only
      rw [h.dst]
      split_ifs
      · refine if_neg ?_
        rintro ⟨hfresh, hroom⟩
        exact hm.elim (fun hne => hne hfresh) fun hno => hno hroom
      · rfl

/-- A plan that comes to a move does nothing, or succeeds. -/
theorem alone_or (h : P.Is m) : R.alone P F = some F ∨ ∃ x, R.Succeeds P F m x := by
  by_cases hread : Unreadable R.fits F m.src
  · exact .inl (alone_unreadable h.src hread)
  · unfold Unreadable at hread
    push Not at hread
    obtain ⟨x, hx, hfits⟩ := hread
    by_cases hfree : F m.dst = none ∧ R.room F m.dst
    · exact .inr ⟨x, h, ⟨hx, hfits, hfree.1⟩, hfree.2⟩
    · exact .inl (alone_refused h (not_and_or.mp hfree))

/-- What a move that changed nothing has seen of the map. -/
def Store.Before (R : Store K V) (P : Plan E K) (F : K → Option V) : Progress V → Prop
  | .start => True
  | .unreadable => ∃ k, P.src = .ok (some k) ∧ Unreadable R.fits F k
  | .loaded x => ∃ k, P.src = .ok (some k) ∧ F k = some x ∧ R.fits x
  | .refused => ∃ m, P.Is m ∧ (F m.dst ≠ none ∨ ¬ R.room F m.dst)
  | .copied _ => False
  | .moved _ => False

/-- A move that ends before it wrote does nothing on its own. -/
theorem Store.Before.alone (h : R.Before P F p) (hp : P.Ended p) : R.alone P F = some F := by
  cases p with
  | start => exact alone_idle hp
  | unreadable =>
      obtain ⟨k, hk, hno⟩ := h
      exact alone_unreadable hk hno
  | loaded x =>
      obtain ⟨k, hk, -⟩ := h
      exact alone_nowhere hk hp
  | refused =>
      obtain ⟨m, hm, hno⟩ := h
      exact alone_refused hm hno
  | copied x => exact absurd h id
  | moved x => exact absurd h id

theorem alone_of_source_error {e : E} (h : P.src = .error e) : R.alone P F = none := by
  unfold Store.alone
  rw [h]

theorem alone_of_target_error {e : E} (h : P.src = .ok (some k)) (hx : F k = some x)
    (hfits : R.fits x) (h' : P.dst = .error e) : R.alone P F = none := by
  unfold Store.alone
  rw [h]
  dsimp only
  rw [hx]
  dsimp only
  rw [if_pos hfits, h']

/-- The progress of a move that has written. -/
def Progress.after (x : V) (gone : Bool) : Progress V := if gone then .moved x else .copied x

/-- A move that is alone has come to `p` and `F`. -/
inductive Store.Solo (R : Store K V) (P : Plan E K) (F₀ : K → Option V) :
    Progress V → (K → Option V) → Prop
  | unwritten {p : Progress V} : R.Before P F₀ p → R.Solo P F₀ p F₀
  | written {m : Move K} {x : V} {gone : Bool} : R.Succeeds P F₀ m x →
      (gone = true → P.erases = true) → R.Solo P F₀ (.after x gone) (m.stage F₀ (R.copy x) gone)

/-- A step of a move that changes nothing is one that it may take alone. -/
theorem Store.Before.step (h : R.Before P F p) (hs : R.Step P p F p' F') :
    (F' = F ∧ R.Before P F p') ∨
      ∃ m x, R.Succeeds P F m x ∧ p' = .copied x ∧ F' = m.copied F (R.copy x) := by
  cases hs with
  | fail hk hno => exact .inl ⟨rfl, _, hk, hno⟩
  | load hk hx hfits => exact .inl ⟨rfl, _, hk, hx, hfits⟩
  | refuse hk hno =>
      obtain ⟨k, hsrc, -⟩ := h
      exact .inl ⟨rfl, ⟨k, _⟩, ⟨hsrc, hk⟩, hno⟩
  | write hk hfresh hroom =>
      obtain ⟨k, hsrc, hx, hfits⟩ := h
      exact .inr ⟨⟨k, _⟩, _, ⟨⟨hsrc, hk⟩, ⟨hx, hfits, hfresh⟩, hroom⟩, rfl, rfl⟩
  | erase _ _ => exact absurd h id

theorem Store.Solo.step (h : R.Solo P F₀ p F) (hs : R.Step P p F p' F') : R.Solo P F₀ p' F' := by
  cases h with
  | unwritten hp =>
      rcases hp.step hs with ⟨rfl, hp'⟩ | ⟨m, x, hm, rfl, rfl⟩
      · exact .unwritten hp'
      · show R.Solo P F (.after x false) (m.stage F (R.copy x) false)
        exact .written hm fun h => by cases h
  | @written m x gone hm _ =>
      cases gone with
      | true => cases hs
      | false =>
          cases hs with
          | erase hk herases =>
              obtain rfl := Option.some.inj (Except.ok.inj (hk.symm.trans hm.plan.src))
              show R.Solo P F₀ (.after x true) (m.stage F₀ (R.copy x) true)
              exact .written hm fun _ => herases

/-- A move that holds a value has changed nothing. -/
theorem Store.Solo.loaded (h : R.Solo P F₀ (.loaded x) F) : R.Before P F₀ (.loaded x) := by
  generalize hp : Progress.loaded x = p at h
  cases h with
  | unwritten hbefore => exact hbefore
  | @written m z gone hm _ =>
      cases gone with
      | true => cases hp
      | false => cases hp

omit [DecidableEq K] in
/-- A move that has written is over where the source is gone, if it is one that goes. -/
theorem ended_after (hle : gone = true → P.erases = true) (hp : P.Ended (.after x gone)) :
    gone = P.erases := by
  cases gone with
  | false =>
      have herases : P.erases = false := hp
      exact herases.symm
  | true => exact (hle rfl).symm

/-- A move that is alone does what `alone` says. -/
theorem Store.Solo.alone (h : R.Solo P F₀ p F) (hp : P.Ended p) : R.alone P F₀ = some F := by
  cases h with
  | unwritten hp' => exact hp'.alone hp
  | written hm hle =>
      rw [ended_after hle hp]
      exact hm.alone

/-! ### Two moves -/

/-- One of two moves takes a step. -/
inductive Store.PairStep (R : Store K V) (P Q : Plan E K) :
    Progress V × Progress V × (K → Option V) → Progress V × Progress V × (K → Option V) → Prop
  | left {p p' q : Progress V} {F F' : K → Option V} :
      R.Step P p F p' F' → R.PairStep P Q (p, q, F) (p', q, F')
  | right {p q q' : Progress V} {F F' : K → Option V} :
      R.Step Q q F q' F' → R.PairStep P Q (p, q, F) (p, q', F')

/-- Two moves that start on `F₀` take steps in some order. -/
def Store.Runs (R : Store K V) (P Q : Plan E K) (F₀ : K → Option V) (p q : Progress V)
    (F : K → Option V) : Prop :=
  ReflTransGen (R.PairStep P Q) (.start, .start, F₀) (p, q, F)

/-- One move and then the other. -/
def Store.Serial (R : Store K V) (P Q : Plan E K) (F G : K → Option V) : Prop :=
  (R.alone P F).bind (R.alone Q) = some G

/-- The second move finds no room next to the copy of the first, but it does before the
first and behind it. -/
def Store.Squeezed (R : Store K V) (P Q : Plan E K) (F : K → Option V) (m : Move K) (x : V) :
    Prop :=
  ∃ m' z z', R.Succeeds Q F m' z ∧ R.Succeeds Q (R.result P m F x) m' z' ∧
    ¬ R.room (m.copied F (R.copy x)) m'.dst

/-- One after the other, the two moves do not come to two copies of the source of both: the
second takes it out as well, or it has no room before the first, or leaves none for it. -/
def Store.Excludes (R : Store K V) (P Q : Plan E K) (F : K → Option V) (m m' : Move K) (x : V) :
    Prop :=
  if Q.erases then m'.dst ≠ m.src
  else ¬ (R.Succeeds Q F m' x ∧ R.Succeeds P (m'.copied F (R.copy x)) m x)

/-- The ends that no order of the two moves has. -/
inductive Store.Anomaly (R : Store K V) (P Q : Plan E K) (F : K → Option V) :
    (K → Option V) → Prop
  /-- both have copied one source, and both copies stay -/
  | doubled {m m' : Move K} {x : V} : R.Succeeds P F m x → P.erases = true → Q.Is m' →
      m'.src = m.src → m.moved F (R.copy x) m'.dst = none →
      R.room (m.moved F (R.copy x)) m'.dst → R.Excludes P Q F m m' x →
      R.Anomaly P Q F (R.result Q m' (m.moved F (R.copy x)) x)
  /-- the second has done nothing for want of room -/
  | crowded {m : Move K} {x : V} : R.Succeeds P F m x → R.Squeezed P Q F m x →
      R.Anomaly P Q F (R.result P m F x)

/-- What a second move may have seen, where it wrote nothing yet: what it read is there
behind the first move as well, unless it is the source of both; and where it is over, it
does nothing before the first move, or behind it, or it was squeezed out. -/
def Store.Beside (R : Store K V) (P Q : Plan E K) (F : K → Option V) (m : Move K) (x : V) :
    Progress V → Prop
  | .start => True
  | .loaded z => ∃ k, Q.src = .ok (some k) ∧ R.fits z ∧
      (R.result P m F x k = some z ∨ (P.erases = true ∧ k = m.src ∧ z = x))
  | .copied _ => False
  | .moved _ => False
  | _ => R.alone Q F = some F ∨ R.alone Q (R.result P m F x) = some (R.result P m F x) ∨
      R.Squeezed P Q F m x

/-- The second move wrote, as it would behind the first, but for what it read. -/
structure Store.Trails (R : Store K V) (P Q : Plan E K) (F : K → Option V) (m : Move K) (x : V)
    (m' : Move K) (z : V) : Prop where
  plan : Q.Is m'
  fits : R.fits z
  read : R.result P m F x m'.src = some z ∨ (P.erases = true ∧ m'.src = m.src ∧ z = x)
  fresh : R.result P m F x m'.dst = none
  room : R.room (R.result P m F x) m'.dst

/-- Two moves have come to `p` and `q`, and where one has written the first of them did so
first. -/
inductive Store.Led (R : Store K V) (P Q : Plan E K) (F₀ : K → Option V) :
    Progress V → Progress V → (K → Option V) → Prop
  | unwritten {p q : Progress V} : R.Before P F₀ p → R.Before Q F₀ q → R.Led P Q F₀ p q F₀
  | copied {m : Move K} {x : V} {gone : Bool} {q : Progress V} : R.Succeeds P F₀ m x →
      (gone = true → P.erases = true) → R.Beside P Q F₀ m x q →
      R.Led P Q F₀ (.after x gone) q (m.stage F₀ (R.copy x) gone)
  | both {m m' : Move K} {x z : V} {gone gone' : Bool} : R.Succeeds P F₀ m x →
      (gone = true → P.erases = true) → R.Trails P Q F₀ m x m' z →
      (gone' = true → Q.erases = true) → (gone = false → m'.dst ≠ m.src) →
      R.Led P Q F₀ (.after x gone) (.after z gone')
        (m'.stage (m.stage F₀ (R.copy x) gone) (R.copy z) gone')

/-! ### One step -/

/-- What was seen before the first move wrote. -/
theorem Store.Before.beside (h : R.Before Q F q) (hm : R.Succeeds P F m x) :
    R.Beside P Q F m x q := by
  cases q with
  | start => trivial
  | unreadable =>
      obtain ⟨k, hk, hno⟩ := h
      exact .inl (alone_unreadable hk hno)
  | loaded z =>
      obtain ⟨k, hk, hz, hfits⟩ := h
      exact ⟨k, hk, hfits, hm.copies.stage_of_before hz⟩
  | refused =>
      obtain ⟨m', hm', hno⟩ := h
      exact .inl (alone_refused hm' hno)
  | copied z => exact absurd h id
  | moved z => exact absurd h id

/-- A step of the move that leads. -/
theorem Store.Led.lead (h : R.Led P Q F₀ p q F) (hs : R.Step P p F p' F') :
    R.Led P Q F₀ p' q F' := by
  cases h with
  | unwritten hp hq =>
      rcases hp.step hs with ⟨rfl, hp'⟩ | ⟨m, x, hm, rfl, rfl⟩
      · exact .unwritten hp' hq
      · show R.Led P Q F (.after x false) q (m.stage F (R.copy x) false)
        exact .copied hm (fun h => by cases h) (hq.beside hm)
  | @copied m x gone _ hm _ hq =>
      cases gone with
      | true => cases hs
      | false =>
          cases hs with
          | erase hk herases =>
              obtain rfl := Option.some.inj (Except.ok.inj (hk.symm.trans hm.plan.src))
              show R.Led P Q F₀ (.after x true) q (m.stage F₀ (R.copy x) true)
              exact .copied hm (fun _ => herases) hq
  | @both m m' x z gone gone' hm _ hm' hle' hne =>
      cases gone with
      | true => cases hs
      | false =>
          cases hs with
          | erase hk herases =>
              obtain rfl := Option.some.inj (Except.ok.inj (hk.symm.trans hm.plan.src))
              rw [Move.stage_false, Move.erase_stage (hne rfl)]
              show R.Led P Q F₀ (.after x true) _ (m'.stage (m.stage F₀ (R.copy x) true) _ _)
              exact .both hm (fun _ => herases) hm' hle' fun h => by cases h

/-- Where the second move is refused next to the first. -/
theorem Store.Succeeds.refused (hm : R.Succeeds P F m x) (hle : gone = true → P.erases = true)
    (hq : Q.Is m')
    (hno : m.stage F (R.copy x) gone m'.dst ≠ none ∨ ¬ R.room (m.stage F (R.copy x) gone) m'.dst) :
    R.Beside P Q F m x .refused := by
  rcases alone_or (F := F) hq with hbefore | ⟨z, hz⟩
  · exact .inl hbefore
  · rcases alone_or (F := R.result P m F x) hq with hbehind | ⟨z', hz'⟩
    · exact .inr (.inl hbehind)
    · -- it would succeed before and behind, so that there is nothing in its way
      rcases hno with htaken | hroom
      · rcases hm.copies.taken_or hle htaken with htaken | htaken
        · exact absurd hz.copies.fresh htaken
        · exact absurd hz'.copies.fresh htaken
      · refine .inr (.inr ⟨m', z, z', hz, hz', ?_⟩)
        cases gone with
        | true =>
            have hroom' := hz'.room
            rw [Store.result, hle rfl] at hroom'
            exact absurd hroom' hroom
        | false => exact hroom

/-- A step of the second move, which may write first. -/
theorem Store.Led.follow (h : R.Led P Q F₀ p q F) (hs : R.Step Q q F q' F') :
    R.Led P Q F₀ p q' F' ∨ R.Led Q P F₀ q' p F' := by
  cases h with
  -- whoever writes first leads from then on
  | unwritten hp hq => exact .inr (Store.Led.lead (.unwritten hq hp) hs)
  | @copied m x gone _ hm hle hq =>
      left
      -- the other is behind: what it sees is a map with the copy in it
      cases hs with
      | fail hk hno =>
          -- its source is unreadable before the first move or after it
          refine .copied hm hle ?_
          rcases hm.copies.unreadable_or hle hno with hno | hno
          · exact .inl (alone_unreadable hk hno)
          · exact .inr (.inl (alone_unreadable hk hno))
      | load hk hz hfits =>
          exact .copied hm hle ⟨_, hk, hfits, hm.copies.stage_of_stage hle hz⟩
      -- the destination was taken, by the copy or before
      | refuse hk hno =>
          obtain ⟨k, hsrc, -⟩ := hq
          have hplan : Q.Is ⟨k, _⟩ := ⟨hsrc, hk⟩
          exact .copied hm hle (hm.refused hle hplan hno)
      | @write _ k' z hk hfresh hroom =>
          obtain ⟨k, hsrc, hfits, hread⟩ := hq
          have hroom' : R.room (R.result P m F₀ x) k' := by
            unfold Store.result
            cases gone with
            -- a free destination keeps its room when a source goes out
            | true => rwa [hle rfl]
            | false =>
                cases P.erases with
                | true => exact R.room_erase hroom
                | false => exact hroom
          have htrails : R.Trails P Q F₀ m x ⟨k, k'⟩ z :=
            ⟨⟨hsrc, hk⟩, hfits, hread, Move.stage_eq_none hle hfresh, hroom'⟩
          show R.Led P Q F₀ _ (.after z false)
            ((Move.mk k k').stage (m.stage F₀ (R.copy x) gone) (R.copy z) false)
          refine .both hm hle htrails (fun h => by cases h) ?_
          rintro rfl
          exact hm.copies.ne_src hfresh
      | erase _ _ => exact absurd hq id
  | @both m m' x z gone gone' hm hle hm' hle' hne =>
      left
      cases gone' with
      | true => cases hs
      | false =>
          cases hs with
          | erase hk herases =>
              -- nothing is left to it but to take out its source
              obtain rfl := Option.some.inj (Except.ok.inj (hk.symm.trans hm'.plan.src))
              show R.Led P Q F₀ _ (.after z true) (m'.stage _ (R.copy z) true)
              exact .both hm hle hm' (fun _ => herases) hne

/-! ### Runs -/

/-- In every run, one of the two leads. -/
theorem Store.Runs.led (h : R.Runs P Q F₀ p q F) :
    R.Led P Q F₀ p q F ∨ R.Led Q P F₀ q p F := by
  have hall : ∀ s, ReflTransGen (R.PairStep P Q) (.start, .start, F₀) s →
      R.Led P Q F₀ s.1 s.2.1 s.2.2 ∨ R.Led Q P F₀ s.2.1 s.1 s.2.2 := by
    intro s hs
    induction hs with
    | refl => exact .inl (.unwritten trivial trivial)
    | tail _ hstep ih =>
        cases hstep with
        | left hstep =>
            rcases ih with hled | hled
            · exact .inl (hled.lead hstep)
            · exact (hled.follow hstep).symm
        | right hstep =>
            rcases ih with hled | hled
            · exact hled.follow hstep
            · exact .inr (hled.lead hstep)
  exact hall _ h

/-- A second move that keeps its source may come first, where that leaves room for both. -/
theorem Store.Succeeds.swap (hm : R.Succeeds P F m x) (herases : P.erases = true)
    (hkeeps : Q.erases = false) (hsrc : m'.src = m.src)
    (hfresh : m.moved F (R.copy x) m'.dst = none) (hq : R.Succeeds Q F m' x)
    (hp : R.Succeeds P (m'.copied F (R.copy x)) m x) :
    R.Serial Q P F (R.result Q m' (m.moved F (R.copy x)) x) := by
  have hne_src : m'.dst ≠ m.src := by
    rw [← hsrc]
    exact hq.copies.dst_ne_src
  have hne_dst : m'.dst ≠ m.dst := by
    intro heq
    rw [heq, Move.moved_of_ne hm.copies.dst_ne_src, Move.copied_dst] at hfresh
    cases hfresh
  have hcomm : m.copied (m'.copied F (R.copy x)) (R.copy x) =
      m'.copied (m.copied F (R.copy x)) (R.copy x) :=
    Function.update_comm hne_dst _ _ _
  show (R.alone Q F).bind (R.alone P) = _
  have herase : m'.stage (m.moved F (R.copy x)) (R.copy x) false =
      Function.update (m'.stage (m.copied F (R.copy x)) (R.copy x) false) m.src none :=
    (Move.erase_stage hne_src).symm
  rw [hq.alone, Store.result, Store.result, hkeeps, herase, Move.stage_false, Move.stage_false,
    Option.bind_some, hp.alone, Store.result, herases, Move.stage_true, Move.moved, hcomm]

/-- A move whose source is gone does nothing. -/
theorem alone_gone (hplan : P.Is m) (hgone : F m.src = none) : R.alone P F = some F := by
  refine alone_unreadable hplan.src fun z hz => ?_
  rw [hgone] at hz
  cases hz

/-- What the second move saw, where it is over and wrote nothing, fits before the first move,
or after it, or to neither. -/
theorem Store.Beside.ends (h : R.Beside P Q F m x q) (hq : Q.Ended q) :
    R.alone Q F = some F ∨ R.alone Q (R.result P m F x) = some (R.result P m F x) ∨
      R.Squeezed P Q F m x := by
  cases q with
  | start => exact .inl (alone_idle hq)
  | loaded z =>
      obtain ⟨k, hk, -⟩ := h
      exact .inl (alone_nowhere hk hq)
  | unreadable => exact h
  | refused => exact h
  | copied z => exact absurd h id
  | moved z => exact absurd h id

/-- What a second move comes to that wrote behind the first. -/
theorem Store.Trails.outcome (h : R.Trails P Q F m x m' z) (hm : R.Succeeds P F m x) :
    R.Serial P Q F (R.result Q m' (R.result P m F x) z) ∨
      R.Serial Q P F (R.result Q m' (R.result P m F x) z) ∨
        R.Anomaly P Q F (R.result Q m' (R.result P m F x) z) := by
  rcases h.read with hread | ⟨herases, hsrc, rfl⟩
  -- it read what the first left: it came after it
  · left
    have hsecond : R.Succeeds Q (R.result P m F x) m' z :=
      ⟨h.plan, ⟨hread, h.fits, h.fresh⟩, h.room⟩
    show (R.alone P F).bind (R.alone Q) = _
    rw [hm.alone]
    exact hsecond.alone
  -- both read the same source, and the first has taken it out
  · have hmoved : R.result P m F z = m.moved F (R.copy z) := by
      rw [Store.result, herases, Move.stage_true]
    have hfresh := h.fresh
    have hroom := h.room
    rw [hmoved] at hfresh hroom ⊢
    by_cases hexcludes : R.Excludes P Q F m m' z
    · exact .inr (.inr (.doubled hm herases h.plan hsrc hfresh hroom hexcludes))
    · unfold Store.Excludes at hexcludes
      split_ifs at hexcludes with herases'
      · -- the copy was made where the source stood, and was taken out with it
        left
        rw [Store.result, herases', Move.stage_true,
          Move.moved_moved_self hsrc (not_not.mp hexcludes)]
        show (R.alone P F).bind (R.alone Q) = _
        rw [hm.alone, hmoved]
        exact alone_gone h.plan (hsrc ▸ Move.moved_src)
      · -- the second might have come first
        obtain ⟨hq', hp'⟩ := not_not.mp hexcludes
        right; left
        exact hm.swap herases (Bool.eq_false_iff.mpr herases') hsrc hfresh hq' hp'

/-- What two moves come to that are over. -/
theorem Store.Led.outcome (h : R.Led P Q F₀ p q F) (hp : P.Ended p) (hq : Q.Ended q) :
    R.Serial P Q F₀ F ∨ R.Serial Q P F₀ F ∨ R.Anomaly P Q F₀ F := by
  cases h with
  -- nobody wrote, so either order is the run
  | unwritten hp' hq' =>
      left
      show (R.alone P F).bind (R.alone Q) = some F
      rw [hp'.alone hp]
      exact hq'.alone hq
  | @copied m x gone _ hm hle hbeside =>
      obtain rfl := ended_after hle hp
      -- the first move came through as on its own
      have hfirst := hm.alone
      rcases hbeside.ends hq with hbefore | hkeeps | hsqueezed
      · right; left
        show (R.alone Q F₀).bind (R.alone P) = some (R.result P m F₀ x)
        rw [hbefore]
        exact hfirst
      · left
        show (R.alone P F₀).bind (R.alone Q) = some (R.result P m F₀ x)
        rw [hfirst]
        exact hkeeps
      · exact .inr (.inr (.crowded hm hsqueezed))
  | @both m m' x z gone gone' hm hle htrails hle' hne =>
      obtain rfl := ended_after hle hp
      obtain rfl := ended_after hle' hq
      exact htrails.outcome hm

/-- A move that succeeds fills its destination. -/
theorem Store.Succeeds.filled (h : R.Succeeds P F m x) : R.result P m F x m.dst = some (R.copy x) :=
  h.copies.stage_dst

/-- It changes nothing but its source and its destination. -/
theorem result_of_ne (hsrc : k ≠ m.src) (hdst : k ≠ m.dst) : R.result P m F x k = F k := by
  unfold Store.result
  cases P.erases with
  | true => rw [Move.stage_true, Move.moved_of_ne hsrc, Move.copied_of_ne hdst]
  | false => rw [Move.stage_false, Move.copied_of_ne hdst]

/-- Two copies of one source, where no order of the two moves makes two. -/
theorem doubled_not_serial (hm : R.Succeeds P F m x) (herases : P.erases = true) (hq : Q.Is m')
    (hsrc : m'.src = m.src) (hfresh : m.moved F (R.copy x) m'.dst = none)
    (hexcludes : R.Excludes P Q F m m' x) :
    ¬ R.Serial P Q F (R.result Q m' (m.moved F (R.copy x)) x) ∧
      ¬ R.Serial Q P F (R.result Q m' (m.moved F (R.copy x)) x) := by
  have hmoved : R.result P m F x = m.moved F (R.copy x) := by
    rw [Store.result, herases, Move.stage_true]
  have hdst : m.dst ≠ m'.dst := by
    intro heq
    rw [← heq, ← hmoved, hm.filled] at hfresh
    cases hfresh
  -- both destinations are in use, and each order fills one
  have hsecond : R.result Q m' (m.moved F (R.copy x)) x m'.dst = some (R.copy x) := by
    unfold Store.result
    unfold Store.Excludes at hexcludes
    split_ifs at hexcludes with herases'
    · rw [herases', Move.stage_true, Move.moved_of_ne (hsrc ▸ hexcludes), Move.copied_dst]
    · rw [Bool.eq_false_iff.mpr herases', Move.stage_false, Move.copied_dst]
  have hfirst : R.result Q m' (m.moved F (R.copy x)) x m.dst = some (R.copy x) := by
    rw [result_of_ne (hsrc ▸ hm.copies.dst_ne_src) hdst, ← hmoved]
    exact hm.filled
  have hnot : R.result Q m' (m.moved F (R.copy x)) x ≠ m.moved F (R.copy x) := by
    intro heq
    rw [heq, hfresh] at hsecond
    cases hsecond
  constructor
  -- behind the first, the second finds no source
  · intro hserial
    unfold Store.Serial at hserial
    rw [hm.alone, Option.bind_some, hmoved, alone_gone hq (hsrc ▸ Move.moved_src)] at hserial
    exact hnot (Option.some.inj hserial).symm
  -- in front of it, it does nothing, or the first does
  · intro hserial
    unfold Store.Serial at hserial
    rcases alone_or (F := F) hq with hkeeps | ⟨z, hz⟩
    · rw [hkeeps, Option.bind_some, hm.alone, hmoved] at hserial
      exact hnot (Option.some.inj hserial).symm
    · obtain rfl : x = z := by
        have hsource := hz.copies.source
        rw [hsrc, hm.copies.source] at hsource
        exact Option.some.inj hsource
      -- the destination of the first is free behind the second
      have hfree : R.result Q m' F x m.dst = none := by
        rw [result_of_ne (hsrc ▸ hm.copies.dst_ne_src) hdst, hm.copies.fresh]
      have hno : R.alone P (R.result Q m' F x) ≠ some (R.result Q m' F x) := by
        intro hkeeps
        rw [hz.alone, Option.bind_some, hkeeps] at hserial
        rw [Option.some.inj hserial, hfirst] at hfree
        cases hfree
      unfold Store.Excludes at hexcludes
      split_ifs at hexcludes with herases'
      · -- the source is gone with the second
        apply hno
        apply alone_gone hm.plan
        rw [Store.result, herases', Move.stage_true, ← hsrc, Move.moved_src]
      · rw [Store.result, Bool.eq_false_iff.mpr herases', Move.stage_false] at hno
        rcases alone_or (F := m'.copied F (R.copy x)) hm.plan with hkeeps | ⟨w, hw⟩
        · exact hno hkeeps
        · -- both succeed in this order, which was excluded
          obtain rfl : x = w := by
            have hsource := hw.copies.source
            rw [Move.copied_of_ne (hsrc ▸ hz.copies.dst_ne_src.symm), hm.copies.source] at hsource
            exact Option.some.inj hsource
          exact hexcludes ⟨hz, hw⟩

/-- The destination of the second is free, although each order fills it. -/
theorem crowded_not_serial (hm : R.Succeeds P F m x) (hsqueezed : R.Squeezed P Q F m x) :
    ¬ R.Serial P Q F (R.result P m F x) ∧ ¬ R.Serial Q P F (R.result P m F x) := by
  obtain ⟨m', z, z', hz, hz', -⟩ := hsqueezed
  have hfree : R.result P m F x m'.dst = none := hz'.copies.fresh
  constructor
  · intro hserial
    unfold Store.Serial at hserial
    rw [hm.alone, Option.bind_some, hz'.alone] at hserial
    have hfilled := hz'.filled
    rw [Option.some.inj hserial, hfree] at hfilled
    cases hfilled
  · intro hserial
    unfold Store.Serial at hserial
    rw [hz.alone, Option.bind_some] at hserial
    have hfilled := hz.filled
    rcases alone_or (F := R.result Q m' F z) hm.plan with hkeeps | ⟨w, hw⟩
    · rw [hkeeps] at hserial
      rw [Option.some.inj hserial, hfree] at hfilled
      cases hfilled
    · -- the first move leaves the other destination alone
      have hsrc : m'.dst ≠ m.src := by
        intro heq
        have hfresh := hz.copies.fresh
        rw [heq, hm.copies.source] at hfresh
        cases hfresh
      have hdst : m'.dst ≠ m.dst := by
        intro heq
        rw [heq, hm.filled] at hfree
        cases hfree
      rw [hw.alone] at hserial
      rw [← Option.some.inj hserial, result_of_ne hsrc hdst, hfilled] at hfree
      cases hfree

/-- **No order of the two moves ends in an anomaly.** -/
theorem Store.Anomaly.not_serial (h : R.Anomaly P Q F G) :
    ¬ R.Serial P Q F G ∧ ¬ R.Serial Q P F G := by
  cases h with
  | doubled hm herases hq hsrc hfresh _ hexcludes =>
      exact doubled_not_serial hm herases hq hsrc hfresh hexcludes
  | crowded hm hsqueezed => exact crowded_not_serial hm hsqueezed

/-- **When two moves are serial.**  For every run of two moves, in any order of their steps:
it ends as one of the two orders does iff it does not end in an anomaly. -/
theorem serial_iff (h : R.Runs P Q F₀ p q F) (hp : P.Ended p) (hq : Q.Ended q) :
    R.Serial P Q F₀ F ∨ R.Serial Q P F₀ F ↔ ¬ (R.Anomaly P Q F₀ F ∨ R.Anomaly Q P F₀ F) := by
  constructor
  · rintro (hserial | hserial) (hodd | hodd)
    · exact hodd.not_serial.1 hserial
    · exact hodd.not_serial.2 hserial
    · exact hodd.not_serial.2 hserial
    · exact hodd.not_serial.1 hserial
  · intro hodd
    rcases h.led with hled | hled
    · rcases hled.outcome hp hq with hserial | hserial | hbad
      · exact .inl hserial
      · exact .inr hserial
      · exact absurd (.inl hbad) hodd
    · rcases hled.outcome hq hp with hserial | hserial | hbad
      · exact .inr hserial
      · exact .inl hserial
      · exact absurd (.inr hbad) hodd

/-! ### Runs to an anomaly -/

/-- A move takes the step that the map says. -/
theorem Store.Step.unique {p₁ p₂ : Progress V} {F₁ F₂ : K → Option V} (h : R.Step P p F p₁ F₁)
    (h' : R.Step P p F p₂ F₂) : p₁ = p₂ ∧ F₁ = F₂ := by
  -- the keys of a plan are fixed, and what is read or refused there excludes the rest
  have hkey : ∀ {s : Except E (Option K)} {k k' : K}, s = .ok (some k) → s = .ok (some k') →
      k = k' := fun h h' => Option.some.inj (Except.ok.inj (h.symm.trans h'))
  cases h with
  | fail hk hno =>
      cases h' with
      | fail _ _ => exact ⟨rfl, rfl⟩
      | load hk' hx hfits =>
          obtain rfl := hkey hk hk'
          exact absurd hfits (hno _ hx)
  | load hk hx hfits =>
      cases h' with
      | fail hk' hno =>
          obtain rfl := hkey hk hk'
          exact absurd hfits (hno _ hx)
      | load hk' hx' _ =>
          obtain rfl := hkey hk hk'
          obtain rfl := Option.some.inj (hx.symm.trans hx')
          exact ⟨rfl, rfl⟩
  | refuse hk hno =>
      cases h' with
      | refuse _ _ => exact ⟨rfl, rfl⟩
      | write hk' hfresh hroom =>
          obtain rfl := hkey hk hk'
          exact absurd hno (by rintro (h | h); exacts [h hfresh, h hroom])
  | write hk hfresh hroom =>
      cases h' with
      | refuse hk' hno =>
          obtain rfl := hkey hk hk'
          exact absurd hno (by rintro (h | h); exacts [h hfresh, h hroom])
      | write hk' _ _ =>
          obtain rfl := hkey hk hk'
          exact ⟨rfl, rfl⟩
  | erase hk _ =>
      cases h' with
      | erase hk' _ =>
          obtain rfl := hkey hk hk'
          exact ⟨rfl, rfl⟩

/-- A move that is over takes no step. -/
theorem Store.Step.not_ended (h : R.Step P p F p' F') : ¬ P.Ended p := by
  intro hend
  cases h with
  | fail hk _ => cases hk.symm.trans hend
  | load hk _ _ => cases hk.symm.trans hend
  | refuse hk _ => cases hk.symm.trans hend
  | write hk _ _ => cases hk.symm.trans hend
  | erase _ herases => cases herases.symm.trans hend

/-- A move that succeeds reads its source and writes its copy. -/
theorem Store.Succeeds.load (h : R.Succeeds P F m x) : R.Step P .start F (.loaded x) F :=
  .load h.plan.src h.copies.source h.copies.fits

theorem Store.Succeeds.write (h : R.Succeeds P F m x) :
    R.Step P (.loaded x) F (.copied x) (m.copied F (R.copy x)) :=
  .write h.plan.dst h.copies.fresh h.room

/-- From its copy on, a move comes to its end without the other. -/
theorem Store.Runs.finish {q : Progress V} (h : R.Runs P Q F₀ (.copied x) q (m.copied F (R.copy x)))
    (hsrc : P.src = .ok (some m.src)) :
    R.Runs P Q F₀ (.after x P.erases) q (R.result P m F x) ∧ P.Ended (.after x P.erases) := by
  unfold Store.result
  cases herases : P.erases with
  | false => exact ⟨h, herases⟩
  | true => exact ⟨h.tail (.left (.erase hsrc herases)), trivial⟩

theorem Store.Runs.swap (h : R.Runs P Q F₀ p q F) : R.Runs Q P F₀ q p F := by
  have hall : ∀ s, ReflTransGen (R.PairStep P Q) (.start, .start, F₀) s →
      R.Runs Q P F₀ s.2.1 s.1 s.2.2 := by
    intro s hs
    induction hs with
    | refl => exact .refl
    | tail _ hstep ih =>
        cases hstep with
        | left hstep => exact ih.tail (.right hstep)
        | right hstep => exact ih.tail (.left hstep)
  exact hall _ h

/-- **The moves come to every anomaly**, in some order of their steps. -/
theorem Store.Anomaly.runs (h : R.Anomaly P Q F G) :
    ∃ p q, R.Runs P Q F p q G ∧ P.Ended p ∧ Q.Ended q := by
  cases h with
  | @doubled m m' x hm herases hq hsrc hfresh hroom _ =>
      -- both read, then the first does all, then the second
      have hload : R.Step Q .start F (.loaded x) F :=
        .load hq.src (by rw [hsrc]; exact hm.copies.source) hm.copies.fits
      have hwritten : R.Runs P Q F (.copied x) (.loaded x) (m.copied F (R.copy x)) :=
        ((ReflTransGen.refl.tail (.left hm.load)).tail (.right hload)).tail (.left hm.write)
      obtain ⟨hdone, hend⟩ := hwritten.finish hm.plan.src
      rw [Store.result, herases, Move.stage_true] at hdone
      have hcopied : R.Runs P Q F (.after x true) (.copied x)
          (m'.copied (m.moved F (R.copy x)) (R.copy x)) :=
        hdone.tail (.right (.write hq.dst hfresh hroom))
      obtain ⟨hboth, hend'⟩ := hcopied.swap.finish hq.src
      rw [herases] at hend
      exact ⟨_, _, hboth.swap, hend, hend'⟩
  | @crowded m x hm hsqueezed =>
      -- the second comes between the copy of the first and its end
      obtain ⟨m', z, z', hz, -, hno⟩ := hsqueezed
      have hread : m.copied F (R.copy x) m'.src = some z := by
        rw [Move.copied_of_ne, hz.copies.source]
        intro heq
        have hsource := hz.copies.source
        rw [heq, hm.copies.fresh] at hsource
        cases hsource
      have hload : R.Step Q .start (m.copied F (R.copy x)) (.loaded z) (m.copied F (R.copy x)) :=
        .load hz.plan.src hread hz.copies.fits
      have hrefused : R.Runs P Q F (.copied x) .refused (m.copied F (R.copy x)) :=
        (((ReflTransGen.refl.tail (.left hm.load)).tail (.left hm.write)).tail (.right hload)).tail
          (.right (.refuse hz.plan.dst (.inr hno)))
      obtain ⟨hdone, hend⟩ := hrefused.finish hm.plan.src
      exact ⟨_, _, hdone, hend, trivial⟩

/-- Two moves get in each other's way: there is an end that no order of them has. -/
def Store.Clash (R : Store K V) (P Q : Plan E K) (F : K → Option V) : Prop :=
  ∃ G, R.Anomaly P Q F G ∨ R.Anomaly Q P F G

/-- **When two moves are serial in every run**: where they do not clash. -/
theorem serializable_iff :
    (∀ p q G, R.Runs P Q F p q G → P.Ended p → Q.Ended q →
      R.Serial P Q F G ∨ R.Serial Q P F G) ↔ ¬ R.Clash P Q F := by
  constructor
  · rintro hall ⟨G, hodd | hodd⟩
    · obtain ⟨p, q, hruns, hp, hq⟩ := hodd.runs
      rcases hall p q G hruns hp hq with hserial | hserial
      · exact hodd.not_serial.1 hserial
      · exact hodd.not_serial.2 hserial
    · obtain ⟨q, p, hruns, hq, hp⟩ := hodd.runs
      rcases hall p q G hruns.swap hp hq with hserial | hserial
      · exact hodd.not_serial.2 hserial
      · exact hodd.not_serial.1 hserial
  · intro hno p q G hruns hp hq
    exact (serial_iff hruns hp hq).mpr fun hodd => hno ⟨G, hodd⟩

omit [DecidableEq K] in
theorem Plan.Is.unique (h : P.Is m) (h' : P.Is m') : m = m' := by
  have hsrc : m.src = m'.src := Option.some.inj (Except.ok.inj (h.src.symm.trans h'.src))
  have hdst : m.dst = m'.dst := Option.some.inj (Except.ok.inj (h.dst.symm.trans h'.dst))
  cases m
  cases m'
  cases hsrc
  cases hdst
  rfl

/-- A move of another file is not squeezed out where there is room next to the copy. -/
theorem not_anomaly_of_apart (hp : P.Is m) (hq : Q.Is m') (hne : m.src ≠ m'.src)
    (hroom : ∀ x, F m.src = some x → R.fits x → R.room (m.copied F (R.copy x)) m'.dst) :
    ¬ R.Anomaly P Q F G := by
  intro hodd
  cases hodd with
  | doubled hm _ hq' hsrc _ _ _ =>
      obtain rfl := hp.unique hm.plan
      obtain rfl := hq.unique hq'
      exact hne hsrc.symm
  | crowded hm hsqueezed =>
      obtain ⟨m₂, z, z', hz, -, hno⟩ := hsqueezed
      obtain rfl := hp.unique hm.plan
      obtain rfl := hq.unique hz.plan
      exact hno (hroom _ hm.copies.source hm.copies.fits)

/-- **Moves of different files with room for both copies do not clash.** -/
theorem not_clash_of_apart (hp : P.Is m) (hq : Q.Is m') (hne : m.src ≠ m'.src)
    (hroom : ∀ x, F m.src = some x → R.fits x → R.room (m.copied F (R.copy x)) m'.dst)
    (hroom' : ∀ x, F m'.src = some x → R.fits x → R.room (m'.copied F (R.copy x)) m.dst) :
    ¬ R.Clash P Q F := by
  rintro ⟨G, hodd | hodd⟩
  · exact not_anomaly_of_apart hp hq hne hroom hodd
  · exact not_anomaly_of_apart hq hp hne.symm hroom' hodd

end Moves
