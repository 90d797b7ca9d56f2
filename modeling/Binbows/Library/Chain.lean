/-
Binbows/Library/Chain.lean

Chains in a successor map: the data structure behind every "array of next
indices" (file allocation tables, free lists, hash buckets).  A map
`next : α → α` and a sentinel `stop` describe many singly linked lists at
once; `Walk next stop a l` says that following `next` from `a` meets exactly
the nodes `l`, in this order, and then stands on `stop`.

Main results:

* a walk is determined by its start (`Walk.unique`), so it repeats no node
  (`Walk.nodup`), and inside a finite range it is no longer than the range
  (`Walk.length_le`), which is what bounds the fuel of a loop over it;
* two walks that share a node share everything after it (`Walk.suffix`);
* writing outside a walk does not disturb it (`Walk.congr`);
* `link` chains a list of fresh nodes up (`walk_link`).

Nothing here depends on what the nodes stand for.
-/
import Mathlib.Data.Finset.Card
import Mathlib.Data.List.Nodup
import Mathlib.Logic.Function.Basic

namespace Chain

variable {α : Type*}

/-- `Walk next stop a l`: following `next` from `a` meets exactly `l` and then
stands on `stop`. -/
inductive Walk (next : α → α) (stop : α) : α → List α → Prop
  | done : Walk next stop stop []
  | step {a l} : a ≠ stop → Walk next stop (next a) l → Walk next stop a (a :: l)

variable {next next' : α → α} {stop a b : α} {l l' : List α}

/-! ### Shape of a walk -/

theorem walk_nil_iff : Walk next stop a [] ↔ a = stop := by
  constructor
  · intro h
    cases h
    rfl
  · rintro rfl
    exact .done

theorem walk_cons_iff :
    Walk next stop a (b :: l) ↔ b = a ∧ a ≠ stop ∧ Walk next stop (next a) l := by
  constructor
  · intro h
    cases h with
    | step hne hw => exact ⟨rfl, hne, hw⟩
  · rintro ⟨rfl, hne, hw⟩
    exact .step hne hw

/-- A walk is determined by its start. -/
theorem Walk.unique (h : Walk next stop a l) (h' : Walk next stop a l') : l = l' := by
  induction h generalizing l' with
  | done =>
      cases h' with
      | done => rfl
      | step hne _ => exact absurd rfl hne
  | step hne _ ih =>
      cases h' with
      | done => exact absurd rfl hne
      | step _ hw' => rw [ih hw']

theorem Walk.head_mem (h : Walk next stop a l) (ha : a ≠ stop) : a ∈ l := by
  cases h with
  | done => exact absurd rfl ha
  | step _ _ => exact List.mem_cons_self

/-- From any node of a walk on, the walk goes on as a shorter one. -/
theorem Walk.suffix (h : Walk next stop a l) (hb : b ∈ l) :
    ∃ m, Walk next stop b (b :: m) ∧ (b :: m) <:+ l := by
  induction h with
  | done => simp at hb
  | @step c m hne hw ih =>
      rcases List.mem_cons.mp hb with rfl | hb
      · exact ⟨m, .step hne hw, List.suffix_refl _⟩
      · obtain ⟨k, hk, hs⟩ := ih hb
        exact ⟨k, hk, hs.trans (List.suffix_cons _ _)⟩

/-- A walk repeats no node: the walk from the repetition would be shorter than
itself. -/
theorem Walk.nodup (h : Walk next stop a l) : l.Nodup := by
  induction h with
  | done => exact List.nodup_nil
  | @step c m hne hw ih =>
      refine List.nodup_cons.mpr ⟨fun hmem => ?_, ih⟩
      obtain ⟨k, hk, hs⟩ := hw.suffix hmem
      have hkm : c :: k = c :: m := hk.unique (.step hne hw)
      have hlen := hs.length_le
      rw [hkm, List.length_cons] at hlen
      omega

/-- Inside a finite range a walk is no longer than the range. -/
theorem Walk.length_le (h : Walk next stop a l) {s : Finset α} (hs : ∀ b ∈ l, b ∈ s) :
    l.length ≤ s.card := by
  classical
  rw [← List.toFinset_card_of_nodup h.nodup]
  exact Finset.card_le_card fun b hb => hs b (List.mem_toFinset.mp hb)

/-- The successor of a node is a node again or the sentinel. -/
theorem Walk.next_mem (h : Walk next stop a l) (hb : b ∈ l) :
    next b = stop ∨ next b ∈ l := by
  obtain ⟨m, hm, hs⟩ := h.suffix hb
  obtain ⟨-, -, hm⟩ := walk_cons_iff.mp hm
  by_cases hn : next b = stop
  · exact .inl hn
  · exact .inr (hs.subset (List.mem_cons_of_mem _ (hm.head_mem hn)))

/-- Exactly the last node of a walk is followed by the sentinel. -/
theorem Walk.next_eq_stop_iff (h : Walk next stop a l) (hb : b ∈ l) :
    next b = stop ↔ l.getLast? = some b := by
  induction h with
  | done => simp at hb
  | @step c m hne hw ih =>
      cases m with
      | nil =>
          obtain rfl : b = c := by simpa using hb
          simpa using walk_nil_iff.mp hw
      | cons d m =>
          obtain ⟨hd, hnd, -⟩ := walk_cons_iff.mp hw
          rw [List.getLast?_cons_cons]
          rcases List.mem_cons.mp hb with rfl | hb
          · constructor
            · intro hs
              exact absurd hs hnd
            · intro hl
              have hmem := List.mem_of_getLast? hl
              exact absurd hmem (List.nodup_cons.mp (Walk.step hne hw).nodup).1
          · exact ih hb

/-! ### Frames -/

/-- Two maps that agree on the nodes of a walk have the same walk. -/
theorem Walk.congr (h : Walk next stop a l) (hn : ∀ b ∈ l, next' b = next b) :
    Walk next' stop a l := by
  induction h with
  | done => exact .done
  | step hne _ ih =>
      refine .step hne ?_
      rw [hn _ List.mem_cons_self]
      exact ih fun b hb => hn b (List.mem_cons_of_mem _ hb)

/-! ### Linking fresh nodes -/

variable [DecidableEq α]

/-- Chain the nodes of `l` up, in this order, and end the chain with `stop`. -/
def link (next : α → α) (stop : α) : List α → α → α
  | [] => next
  | a :: l => Function.update (link next stop l) a (l.headD stop)

theorem link_of_notMem (h : a ∉ l) : link next stop l a = next a := by
  induction l with
  | nil => rfl
  | cons b l ih =>
      rw [List.mem_cons, not_or] at h
      rw [link, Function.update_of_ne h.1, ih h.2]

/-- Writing outside a list of nodes commutes with linking the list. -/
theorem link_update (h : a ∉ l) :
    link (Function.update next a b) stop l = Function.update (link next stop l) a b := by
  induction l with
  | nil => rfl
  | cons d l ih =>
      rw [List.mem_cons, not_or] at h
      rw [link, link, ih h.2, Function.update_comm (Ne.symm h.1)]

theorem link_mem (h : l.Nodup) (ha : a ∈ l) :
    link next stop l a = stop ∨ link next stop l a ∈ l := by
  induction l with
  | nil => simp at ha
  | cons b l ih =>
      obtain ⟨hb, hl⟩ := List.nodup_cons.mp h
      rcases List.mem_cons.mp ha with rfl | ha'
      · rw [link, Function.update_self]
        cases l with
        | nil => exact .inl rfl
        | cons c l => exact .inr (by simp)
      · have hne : a ≠ b := fun h => hb (h ▸ ha')
        rw [link, Function.update_of_ne hne]
        rcases ih hl ha' with h | h
        · exact .inl h
        · exact .inr (List.mem_cons_of_mem _ h)

/-- The chain that `link` makes is walked from its head. -/
theorem walk_link (h : l.Nodup) (hs : stop ∉ l) :
    Walk (link next stop l) stop (l.headD stop) l := by
  induction l with
  | nil => exact .done
  | cons b l ih =>
      obtain ⟨hb, hl⟩ := List.nodup_cons.mp h
      rw [List.mem_cons, not_or] at hs
      refine .step (Ne.symm hs.1) ?_
      rw [List.headD_cons, link, Function.update_self]
      refine (ih hl hs.2).congr fun c hc => ?_
      have hne : c ≠ b := fun h => hb (h ▸ hc)
      exact Function.update_of_ne hne _ _

end Chain
