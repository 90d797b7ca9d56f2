/-
Binbows/Library/SlotTree.lean

Trees kept in slots.  Every node of a type `α` has slots named by `ι`, and
`child a i` is the node that hangs in slot `i` of `a`, if any.  `Reach child r`
is the set of nodes below a root `r`.

Main results:

* `reach_congr`, `reach_attach`, `reach_detach`: what is reachable after an
  edit that leaves the edges alone, hangs a fresh leaf up, or takes a leaf
  down;
* `Reach.exists_depth`: if no reachable node hangs in two slots and the root
  hangs in none, the reachable nodes form a tree: there is a depth function
  that is zero at the root only and grows by one along every edge;
* `mem_walk`, `nodup_walk`: a depth-first walk lists the slots of the reachable
  nodes, and where a node has an address it lists them once.
-/
import Mathlib.Data.List.Flatten
import Mathlib.Data.List.Nodup
import Mathlib.Logic.Relation
import Mathlib.Tactic.Common

namespace SlotTree

variable {α ι : Type*}

/-- The nodes below a root. -/
inductive Reach (child : α → ι → Option α) (r : α) : α → Prop
  | root : Reach child r r
  | child {a i b} : Reach child r a → child a i = some b → Reach child r b

variable {child child' : α → ι → Option α} {r a b c p : α} {i : ι}

/-! ### Edits -/

/-- Edges that agree on the reachable nodes reach the same nodes. -/
theorem reach_congr (h : ∀ a, Reach child r a → child' a = child a) :
    Reach child' r a ↔ Reach child r a := by
  constructor
  · intro ha
    induction ha with
    | root => exact .root
    | child _ he ih =>
        rw [h _ ih] at he
        exact .child ih he
  · intro ha
    induction ha with
    | root => exact .root
    | child hb he ih =>
        rw [← h _ hb] at he
        exact .child ih he

/-- Hanging a fresh leaf `c` into a free slot of `p` adds exactly `c`. -/
theorem reach_attach (hp : Reach child r p) (hslot : child p i = none)
    (hedge : child' p i = some c) (hleaf : ∀ j, child' c j = none)
    (hsame : ∀ a j, Reach child r a → a ≠ p ∨ j ≠ i → child' a j = child a j) :
    Reach child' r a ↔ Reach child r a ∨ a = c := by
  constructor
  · intro ha
    induction ha with
    | root => exact .inl .root
    | @child a j b _ he ih =>
        rcases ih with ha | rfl
        · by_cases hpi : a = p ∧ j = i
          · obtain ⟨rfl, rfl⟩ := hpi
            rw [hedge] at he
            exact .inr (Option.some.inj he).symm
          · rw [hsame a j ha (by tauto)] at he
            exact .inl (.child ha he)
        · rw [hleaf] at he
          cases he
  · have hold : ∀ {a}, Reach child r a → Reach child' r a := by
      intro a ha
      induction ha with
      | root => exact .root
      | @child a j b ha he ih =>
          by_cases hpi : a = p ∧ j = i
          · obtain ⟨rfl, rfl⟩ := hpi
            rw [hslot] at he
            cases he
          · rw [← hsame a j ha (by tauto)] at he
            exact .child ih he
    rintro (ha | rfl)
    · exact hold ha
    · exact .child (hold hp) hedge

/-- Unlinking `c`, which hangs in slot `i` of `p` only, loses at least `c` and
reaches nothing new. -/
theorem reach_unlink (hr : c ≠ r) (hgone : child' p i = none)
    (honly : ∀ a j, Reach child r a → child a j = some c → a = p ∧ j = i)
    (hsame : ∀ a j, Reach child r a → a ≠ c → a ≠ p ∨ j ≠ i → child' a j = child a j)
    (ha : Reach child' r a) : Reach child r a ∧ a ≠ c := by
  induction ha with
  | root => exact ⟨.root, hr.symm⟩
  | @child a j b _ he ih =>
      obtain ⟨ha, hac⟩ := ih
      by_cases hpi : a = p ∧ j = i
      · obtain ⟨rfl, rfl⟩ := hpi
        rw [hgone] at he
        cases he
      · rw [hsame a j ha hac (by tauto)] at he
        refine ⟨.child ha he, ?_⟩
        rintro rfl
        exact hpi (honly a j ha he)

/-- Taking the leaf `c`, which hangs in slot `i` of `p` only, down removes
exactly `c`. -/
theorem reach_detach (hr : c ≠ r) (hleaf : ∀ j, child c j = none)
    (hedge : child p i = some c) (hgone : child' p i = none)
    (honly : ∀ a j, Reach child r a → child a j = some c → a = p ∧ j = i)
    (hsame : ∀ a j, Reach child r a → a ≠ c → a ≠ p ∨ j ≠ i → child' a j = child a j) :
    Reach child' r a ↔ Reach child r a ∧ a ≠ c := by
  constructor
  · exact reach_unlink hr hgone honly hsame
  · rintro ⟨ha, hac⟩
    induction ha with
    | root => exact .root
    | @child a j b ha he ih =>
        have hne : a ≠ c := by
          rintro rfl
          rw [hleaf] at he
          cases he
        have hpi : a ≠ p ∨ j ≠ i := by
          by_contra hcon
          rw [not_or, not_not, not_not] at hcon
          obtain ⟨rfl, rfl⟩ := hcon
          rw [hedge] at he
          exact hac (Option.some.inj he).symm
        rw [← hsame a j ha hne hpi] at he
        exact .child (ih hne) he

/-! ### Depth -/

/-- The nodes below a root, by depth. -/
inductive ReachAt (child : α → ι → Option α) (r : α) : Nat → α → Prop
  | root : ReachAt child r 0 r
  | child {n a i b} : ReachAt child r n a → child a i = some b → ReachAt child r (n + 1) b

theorem ReachAt.reach {n : Nat} (h : ReachAt child r n a) : Reach child r a := by
  induction h with
  | root => exact .root
  | child _ he ih => exact .child ih he

theorem Reach.exists_reachAt (h : Reach child r a) : ∃ n, ReachAt child r n a := by
  induction h with
  | root => exact ⟨0, .root⟩
  | child _ he ih =>
      obtain ⟨n, hn⟩ := ih
      exact ⟨n + 1, .child hn he⟩

/-- A node that hangs in one slot only is at one depth only. -/
theorem ReachAt.unique {m n : Nat} (hroot : ∀ a i, Reach child r a → child a i ≠ some r)
    (honly : ∀ a i b j c, Reach child r a → Reach child r b →
      child a i = some c → child b j = some c → a = b)
    (h : ReachAt child r m a) (h' : ReachAt child r n a) : m = n := by
  induction h generalizing n with
  | root =>
      cases h' with
      | root => rfl
      | child hb he => exact absurd he (hroot _ _ hb.reach)
  | @child m a i b ha he ih =>
      cases h' with
      | root => exact absurd he (hroot _ _ ha.reach)
      | @child n a' j _ hb he' =>
          obtain rfl := honly a i a' j b ha.reach hb.reach he he'
          rw [ih hb]

/-- Where no reachable node hangs in two slots and the root hangs in none, the
reachable nodes form a tree. -/
theorem Reach.exists_depth (hroot : ∀ a i, Reach child r a → child a i ≠ some r)
    (honly : ∀ a i b j c, Reach child r a → Reach child r b →
      child a i = some c → child b j = some c → a = b) :
    ∃ depth : α → Nat, depth r = 0 ∧
      ∀ a i b, Reach child r a → child a i = some b → depth b = depth a + 1 := by
  classical
  have hex : ∀ a, ∃ n, Reach child r a → ReachAt child r n a := by
    intro a
    by_cases ha : Reach child r a
    · obtain ⟨n, hn⟩ := ha.exists_reachAt
      exact ⟨n, fun _ => hn⟩
    · exact ⟨0, fun h => absurd h ha⟩
  choose depth hdepth using hex
  refine ⟨depth, (hdepth r .root).unique hroot honly .root, ?_⟩
  intro a i b ha he
  exact (hdepth b (.child ha he)).unique hroot honly (.child (hdepth a ha) he)

theorem ReachAt.cons {n : Nat} (he : child a i = some b) (h : ReachAt child b n c) :
    ReachAt child a (n + 1) c := by
  induction h with
  | root => exact .child .root he
  | child _ he' ih => exact .child ih he'

theorem reachAt_succ {n : Nat} : ReachAt child a (n + 1) c ↔
    ∃ i b, child a i = some b ∧ ReachAt child b n c := by
  constructor
  · induction n generalizing c with
    | zero =>
        rintro (_ | ⟨ha, he⟩)
        cases ha
        exact ⟨_, _, he, .root⟩
    | succ n ih =>
        rintro (_ | ⟨ha, he⟩)
        obtain ⟨i, b, hfirst, hrest⟩ := ih ha
        exact ⟨i, b, hfirst, .child hrest he⟩
  · rintro ⟨i, b, he, h⟩
    exact h.cons he

/-! ### Walks -/

section Walk

variable {slots : α → List ι} {m n : Nat}

/-- The slots below `a`, depth first and at most `n` deep: those of `a` are `slots a`, and
behind a slot the walk goes on with what hangs in it. -/
def walk (child : α → ι → Option α) (slots : α → List ι) : Nat → α → List (α × ι)
  | 0, _ => []
  | n + 1, a => (slots a).flatMap fun i => (a, i) :: (child a i).elim [] (walk child slots n)

theorem mem_walk_elim {o : Option α} {x : α × ι} :
    x ∈ o.elim [] (walk child slots n) ↔ ∃ b, o = some b ∧ x ∈ walk child slots n b := by
  cases o with
  | none => simp
  | some b => simp

/-- What a walk lists. -/
theorem mem_walk (hin : ∀ a i b, child a i = some b → i ∈ slots a) :
    (b, i) ∈ walk child slots n a ↔ i ∈ slots b ∧ ∃ m < n, ReachAt child a m b := by
  induction n generalizing a with
  | zero =>
      rw [walk]
      exact iff_of_false List.not_mem_nil fun ⟨_, _, hm, _⟩ => absurd hm (Nat.not_lt_zero _)
  | succ n ih =>
      simp only [walk, List.mem_flatMap, List.mem_cons, Prod.mk.injEq, mem_walk_elim, ih]
      constructor
      · rintro ⟨j, hj, ⟨rfl, rfl⟩ | ⟨c, he, hi, m, hm, hreach⟩⟩
        · exact ⟨hj, 0, Nat.succ_pos n, .root⟩
        · exact ⟨hi, m + 1, Nat.succ_lt_succ hm, hreach.cons he⟩
      · rintro ⟨hi, m, hm, hreach⟩
        cases m with
        | zero =>
            cases hreach
            exact ⟨i, hi, .inl ⟨rfl, rfl⟩⟩
        | succ m =>
            obtain ⟨j, c, he, hrest⟩ := reachAt_succ.mp hreach
            exact ⟨j, hin a j c he, .inr ⟨c, he, hi, m, Nat.lt_of_succ_lt_succ hm, hrest⟩⟩

/-- An address leads from node to node. -/
theorem ReachAt.address {addr : α → List ι}
    (haddr : ∀ a i b, child a i = some b → addr b = i :: addr a) (h : ReachAt child a m b) :
    addr a <:+ addr b := by
  induction h with
  | root => exact List.suffix_rfl
  | child _ he ih =>
      rw [haddr _ _ _ he]
      exact ih.trans (List.suffix_cons _ _)

/-- What is listed behind a slot lies below the address of that slot. -/
theorem address_behind {addr : α → List ι}
    (haddr : ∀ a i b, child a i = some b → addr b = i :: addr a)
    (hin : ∀ a i b, child a i = some b → i ∈ slots a) {x : α × ι}
    (hx : x ∈ (child a i).elim [] (walk child slots n)) : i :: addr a <:+ addr x.1 := by
  obtain ⟨c, he, hx⟩ := mem_walk_elim.mp hx
  obtain ⟨-, m, -, hreach⟩ := (mem_walk hin).mp hx
  exact haddr _ _ _ he ▸ hreach.address haddr

/-- Where the nodes have addresses, a walk lists no slot twice. -/
theorem nodup_walk (addr : α → List ι)
    (haddr : ∀ a i b, child a i = some b → addr b = i :: addr a)
    (hin : ∀ a i b, child a i = some b → i ∈ slots a) (hslots : ∀ a, (slots a).Nodup) :
    (walk child slots n a).Nodup := by
  induction n generalizing a with
  | zero => exact List.nodup_nil
  | succ n ih =>
      have hhere : ∀ {i j}, (a, j) ∉ (child a i).elim [] (walk child slots n) := fun hx =>
        Nat.not_succ_le_self _ (address_behind haddr hin hx).length_le
      rw [walk, List.nodup_flatMap]
      refine ⟨fun i _ => List.nodup_cons.mpr ⟨hhere, ?_⟩, (hslots a).imp fun {i j} hne => ?_⟩
      · cases child a i with
        | none => exact List.nodup_nil
        | some b => exact ih
      · -- two slots of one node are no parts of one address
        intro x hx hx'
        rcases List.mem_cons.mp hx with rfl | hx
        · rcases List.mem_cons.mp hx' with heq | hx'
          · exact hne (congrArg Prod.snd heq)
          · exact hhere hx'
        · rcases List.mem_cons.mp hx' with rfl | hx'
          · exact hhere hx
          · have hi := address_behind haddr hin hx
            have hj := address_behind haddr hin hx'
            have heq := (List.suffix_of_suffix_length_le hi hj (Nat.le_refl _)).eq_of_length rfl
            exact hne (List.cons.inj heq).1

theorem walk_eq_nil (h : slots a = []) : walk child slots n a = [] := by
  cases n with
  | zero => rfl
  | succ n => rw [walk, h, List.flatMap_nil]

/-- With fewer edges a walk lists less; an edge to a node without slots adds nothing. -/
theorem walk_sublist (h : ∀ m b, ReachAt child' a m b → ∀ i ∈ slots b, ∀ c, child' b i = some c →
      child b i = some c ∨ slots c = []) :
    (walk child' slots n a).Sublist (walk child slots n a) := by
  induction n generalizing a with
  | zero => exact List.Sublist.refl _
  | succ n ih =>
      rw [walk, walk]
      refine List.Sublist.flatMap_right _ fun i hi => ?_
      refine List.Sublist.cons_cons _ ?_
      cases he : child' a i with
      | none => exact List.nil_sublist _
      | some b =>
          rcases h 0 a .root i hi b he with hsame | hempty
          · rw [hsame]
            exact ih fun m c hreach => h (m + 1) c (hreach.cons he)
          · show (walk child' slots n b).Sublist _
            rw [walk_eq_nil hempty]
            exact List.nil_sublist _

/-- Edges to nodes without slots make no difference to a walk. -/
theorem walk_congr (h : ∀ m b, ReachAt child' a m b → ∀ i ∈ slots b, child b i = child' b i ∨
      (∀ c, child b i = some c → slots c = []) ∧ ∀ c, child' b i = some c → slots c = []) :
    walk child slots n a = walk child' slots n a := by
  have helim : ∀ (edges : α → ι → Option α) (o : Option α) (n : Nat),
      (∀ c, o = some c → slots c = []) → o.elim [] (walk edges slots n) = [] := by
    intro edges o n ho
    cases o with
    | none => rfl
    | some c => exact walk_eq_nil (ho c rfl)
  induction n generalizing a with
  | zero => rfl
  | succ n ih =>
      rw [walk, walk]
      refine List.flatMap_congr fun i hi => ?_
      congr 1
      rcases h 0 a .root i hi with hsame | ⟨hempty, hempty'⟩
      · rw [hsame]
        cases he : child' a i with
        | none => rfl
        | some b => exact ih fun m c hreach => h (m + 1) c (hreach.cons he)
      · rw [helim child _ n hempty, helim child' _ n hempty']

end Walk

/-! ### Images -/

/-- The nodes of a tree that is mapped into a tree edge by edge are told apart by their
images. -/
theorem ReachAt.eq_of_image {β : Type*} (edge : β → ι → Option β) (depth : β → Nat) {f : α → β}
    {S : β → Prop} {m n : Nat}
    (hedge : ∀ m a i b, ReachAt child r m a → child a i = some b →
      S (f a) ∧ edge (f a) i = some (f b))
    (hdepth : ∀ x i y, S x → edge x i = some y → depth y = depth x + 1)
    (honly : ∀ x i y j z, S x → S y → edge x i = some z → edge y j = some z → x = y ∧ i = j)
    (h : ReachAt child r m a) (h' : ReachAt child r n b) (heq : f a = f b) : a = b := by
  have hat : ∀ {m a}, ReachAt child r m a → depth (f a) = depth (f r) + m := by
    intro m a h
    induction h with
    | root => rfl
    | child ha he ih =>
        obtain ⟨hs, he'⟩ := hedge _ _ _ _ ha he
        rw [hdepth _ _ _ hs he', ih, Nat.add_assoc]
  obtain rfl : m = n := Nat.add_left_cancel ((hat h).symm.trans (heq ▸ hat h'))
  induction m generalizing a b with
  | zero =>
      cases h
      cases h'
      rfl
  | succ m ih =>
      cases h with
      | child ha he =>
          cases h' with
          | child hb he' =>
              obtain ⟨hs, hi⟩ := hedge _ _ _ _ ha he
              obtain ⟨hs', hj⟩ := hedge _ _ _ _ hb he'
              obtain ⟨hsame, rfl⟩ := honly _ _ _ _ _ hs hs' hi (heq ▸ hj)
              obtain rfl := ih ha hsame hb
              exact Option.some.inj (he.symm.trans he')

end SlotTree
