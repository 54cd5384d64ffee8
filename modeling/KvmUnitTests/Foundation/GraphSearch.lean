import Mathlib.Data.List.Chain
import Mathlib.Data.List.Perm.Subperm
import Mathlib.Logic.Relation
import Mathlib.Tactic.Ring

/-!
# Searching backwards through a changing graph

The nodes are the numbers below `n`, and `edge w i` says that there is an edge from `i` to `w`. A
depth-first search from a node follows the edges backwards and looks for `goal`. It remembers no
nodes, and it reads one entry of `edge` at a time, so that the graph may change between two steps:
the state is a stack of nodes with a position each.

Four facts make up the theory. `Ahead.step` is exhaustiveness: a path that is there during the
whole search stays ahead of it, so that a search that ends has found it. `OnPath.step` says that
the stack is a path of the edges that are followed. `potential_step` bounds the number of steps as
long as the stack is not higher than `n`, and `length_le_of_isChain` is the reason for that in an
acyclic graph. `acyclic_insert` says which edges can be added to such a graph.
-/

set_option autoImplicit false

namespace KvmUnitTests.Foundation.GraphSearch

open Relation List

/-- The nodes on the path, the latest first, each with the next position to read. -/
abbrev Stack := List (Nat × Nat)

/-- One step: read an entry, or return to the previous node. There is no result if the goal is
found. -/
def searchStep (n : Nat) (edge : Nat → Nat → Bool) (goal : Nat) (w i : Nat) (rest : Stack) :
    Option Stack :=
  if i < n then
    if edge w i then
      if i = goal then none else some ((i, 0) :: (w, i + 1) :: rest)
    else some ((w, i + 1) :: rest)
  else some rest

variable {G H R : Nat → Nat → Prop} {edge : Nat → Nat → Bool} {a b goal i me n w : Nat}
  {rest stack : Stack}

theorem searchStep_eq_some (h : searchStep n edge goal w i rest = some stack) :
    (i < n ∧ edge w i = true ∧ i ≠ goal ∧ stack = (i, 0) :: (w, i + 1) :: rest) ∨
      (i < n ∧ edge w i = false ∧ stack = (w, i + 1) :: rest) ∨ (n ≤ i ∧ stack = rest) := by
  unfold searchStep at h
  split_ifs at h with hi hedge hgoal
  · cases h
    exact .inl ⟨hi, hedge, hgoal, rfl⟩
  · cases h
    exact .inr (.inl ⟨hi, Bool.eq_false_iff.2 hedge, rfl⟩)
  · cases h
    exact .inr (.inr ⟨not_lt.1 hi, rfl⟩)

theorem searchStep_eq_none (h : searchStep n edge goal w i rest = none) :
    edge w i = true ∧ i = goal := by
  unfold searchStep at h
  split_ifs at h with hi hedge hgoal
  exact ⟨hedge, hgoal⟩

/-! ## Exhaustiveness -/

/-- A path of `H` from the goal passes an entry that is still to be read. -/
def Ahead (n : Nat) (H : Nat → Nat → Prop) (goal : Nat) (stack : Stack) : Prop :=
  ∃ f ∈ stack, ∃ x, f.2 ≤ x ∧ x < n ∧ H x f.1 ∧ ReflTransGen H goal x

theorem ahead_start (hlt : ∀ x w, H x w → x < n) (h : TransGen H goal me) :
    Ahead n H goal [(me, 0)] := by
  obtain ⟨x, hpath, hlast⟩ := TransGen.tail'_iff.1 h
  exact ⟨(me, 0), mem_singleton_self _, x, Nat.zero_le x, hlt x me hlast, hlast, hpath⟩

/-- A step over entries that contain `H` keeps a path ahead. -/
theorem Ahead.step (hlt : ∀ x w, H x w → x < n) (hedge : ∀ x w, H x w → edge w x = true)
    (h : Ahead n H goal ((w, i) :: rest))
    (hstep : searchStep n edge goal w i rest = some stack) : Ahead n H goal stack := by
  obtain ⟨f, hf, x, hpos, hx, hlast, hpath⟩ := h
  rcases searchStep_eq_some hstep with ⟨hi, _, hgoal, rfl⟩ | ⟨hi, hno, rfl⟩ | ⟨hi, rfl⟩
  · rcases mem_cons.1 hf with rfl | hf
    · by_cases hxi : x = i
      · -- the path goes through the node that is entered
        subst hxi
        rcases hpath.cases_tail with heq | ⟨y, hy, hlast'⟩
        · exact absurd heq hgoal
        · exact ⟨(x, 0), mem_cons_self, y, Nat.zero_le y, hlt y x hlast', hlast', hy⟩
      · have hlater : i + 1 ≤ x := by
          omega
        exact ⟨(w, i + 1), mem_cons_of_mem _ mem_cons_self, x, hlater, hx, hlast, hpath⟩
    · exact ⟨f, mem_cons_of_mem _ (mem_cons_of_mem _ hf), x, hpos, hx, hlast, hpath⟩
  · rcases mem_cons.1 hf with rfl | hf
    · have hne : x ≠ i := by
        rintro rfl
        have htrue := hedge x w hlast
        rw [hno] at htrue
        cases htrue
      have hlater : i + 1 ≤ x := by
        omega
      exact ⟨(w, i + 1), mem_cons_self, x, hlater, hx, hlast, hpath⟩
    · exact ⟨f, mem_cons_of_mem _ hf, x, hpos, hx, hlast, hpath⟩
  · rcases mem_cons.1 hf with rfl | hf
    · omega
    · exact ⟨f, hf, x, hpos, hx, hlast, hpath⟩

theorem Ahead.mono (hGH : ∀ x w, G x w → H x w) (h : Ahead n G goal stack) :
    Ahead n H goal stack := by
  obtain ⟨f, hf, x, hpos, hx, hlast, hpath⟩ := h
  exact ⟨f, hf, x, hpos, hx, hGH _ _ hlast, ReflTransGen.mono hGH _ _ hpath⟩

theorem not_ahead_nil : ¬ Ahead n H goal [] := by
  rintro ⟨f, hf, _⟩
  exact absurd hf not_mem_nil

/-! ## The path of the search -/

/-- The stack is a path of `R` that ends in `me`, through nodes with the property `P`. -/
structure OnPath (R : Nat → Nat → Prop) (P : Nat → Prop) (me : Nat) (stack : Stack) : Prop where
  chain : stack.IsChain fun f g => R f.1 g.1
  base : ∀ f ∈ stack.getLast?, f.1 = me
  nodes : ∀ f ∈ stack, P f.1

namespace OnPath

variable
  {R' : Nat → Nat → Prop} {P : Nat → Prop}

theorem start (hme : P me) : OnPath R P me [(me, 0)] where
  chain := isChain_singleton _
  base f hf := by
    cases hf
    rfl
  nodes f hf := by
    rw [mem_singleton.1 hf]
    exact hme

variable {f : Nat × Nat} {p q x : Nat}

theorem tail (h : OnPath R P me (f :: rest)) : OnPath R P me rest where
  chain := h.chain.tail
  base g hg := by
    cases rest with
    | nil => cases hg
    | cons f' rest => exact h.base g hg
  nodes g hg := h.nodes g (mem_cons_of_mem _ hg)

theorem move (h : OnPath R P me ((w, p) :: rest)) : OnPath R P me ((w, q) :: rest) where
  chain := List.IsChain.imp_head (x := (w, p)) (y := (w, q)) (fun hz => hz) h.chain
  base f hf := by
    cases rest with
    | nil =>
      cases hf
      exact h.base (w, p) rfl
    | cons f' rest => exact h.base f hf
  nodes f hf := by
    rcases mem_cons.1 hf with rfl | hf
    · exact h.nodes (w, p) mem_cons_self
    · exact h.nodes f (mem_cons_of_mem _ hf)

theorem push (h : OnPath R P me (f :: rest)) (hR : R x f.1) (hP : P x) :
    OnPath R P me ((x, p) :: f :: rest) where
  chain := isChain_cons_cons.2 ⟨hR, h.chain⟩
  base := h.base
  nodes g hg := by
    rcases mem_cons.1 hg with rfl | hg
    · exact hP
    · exact h.nodes g hg

/-- A step stays on a path if the entries that it reads are edges of `R`. -/
theorem step (h : OnPath R P me ((w, i) :: rest))
    (hnew : i < n → edge w i = true → i ≠ goal → R i w ∧ P i)
    (hstep : searchStep n edge goal w i rest = some stack) : OnPath R P me stack := by
  rcases searchStep_eq_some hstep with ⟨hi, hedge, hgoal, rfl⟩ | ⟨hi, _, rfl⟩ | ⟨hi, rfl⟩
  · obtain ⟨hR, hP⟩ := hnew hi hedge hgoal
    exact push (move h) hR hP
  · exact move h
  · exact h.tail

theorem imp (h : OnPath R P me stack)
    (hR : ∀ f ∈ stack, ∀ g ∈ stack, R f.1 g.1 → R' f.1 g.1) : OnPath R' P me stack :=
  ⟨h.chain.imp_of_mem_imp fun f g hf hg => hR f hf g hg, h.base, h.nodes⟩

theorem reaches (h : OnPath R P me stack) : ∀ f ∈ stack, ReflTransGen R f.1 me := by
  induction stack with
  | nil => exact fun f hf => absurd hf not_mem_nil
  | cons f rest ih =>
    intro g hg
    rcases mem_cons.1 hg with rfl | hg
    · cases rest with
      | nil => rw [h.base g rfl]
      | cons f' rest =>
        exact ReflTransGen.head (isChain_cons_cons.1 h.chain).1 (ih h.tail f' mem_cons_self)
    · exact ih h.tail g hg

end OnPath

/-! ## The number of steps -/

/-- A bound for the steps of a search through a tree of the given height. -/
def cost (n : Nat) : Nat → Nat
  | 0 => 0
  | d + 1 => n * (1 + cost n d) + 1

/-- The steps that are left, if the stack does not get higher than `n`. -/
def potential (n : Nat) : Stack → Nat
  | [] => 0
  | (_, i) :: rest => (n - i) * (1 + cost n (n - (rest.length + 1))) + 1 + potential n rest

theorem potential_start (hn : 0 < n) (me : Nat) : potential n [(me, 0)] = cost n n := by
  obtain ⟨m, rfl⟩ : ∃ m, n = m + 1 := ⟨n - 1, by omega⟩
  simp [potential, cost]

theorem potential_step
    (h : searchStep n edge goal w i rest = some stack) (hheight : stack.length ≤ n) :
    potential n stack + 1 ≤ potential n ((w, i) :: rest) := by
  rcases searchStep_eq_some h with ⟨hi, _, _, rfl⟩ | ⟨hi, _, rfl⟩ | ⟨hi, rfl⟩
  · -- the new node may cost as much as one position of the old one is worth
    simp only [length_cons] at hheight
    obtain ⟨d, hd⟩ : ∃ d, n - (rest.length + 1) = d + 1 := ⟨n - (rest.length + 1) - 1, by omega⟩
    have hd' : n - (rest.length + 1 + 1) = d := by omega
    obtain ⟨m, hm⟩ : ∃ m, n - i = m + 1 := ⟨n - i - 1, by omega⟩
    have hm' : n - (i + 1) = m := by omega
    simp only [potential, length_cons, hd, hd', hm, hm', Nat.sub_zero]
    rw [Nat.succ_mul]
    have hcost : cost n (d + 1) = n * (1 + cost n d) + 1 := rfl
    omega
  · obtain ⟨m, hm⟩ : ∃ m, n - i = m + 1 := ⟨n - i - 1, by omega⟩
    have hm' : n - (i + 1) = m := by omega
    simp only [potential, hm, hm']
    rw [Nat.succ_mul]
    omega
  · simp only [potential]
    omega

/-! ## Acyclic graphs -/

/-- No node reaches itself. -/
def Acyclic (G : Nat → Nat → Prop) : Prop := ∀ x, ¬ TransGen G x x

theorem Acyclic.mono (hG : Acyclic G) (h : ∀ a b, H a b → G a b) : Acyclic H := by
  intro x hx
  exact hG x (TransGen.mono h x x hx)

/-- A path with a new edge stays in the old graph, or uses the new edge. -/
theorem reaches_insert {x y : Nat} (h : ∀ x y, H x y → G x y ∨ x = a ∧ y = b)
    (hpath : ReflTransGen H x y) :
    ReflTransGen G x y ∨ ReflTransGen G x a ∧ ReflTransGen G b y := by
  induction hpath with
  | refl => exact .inl .refl
  | tail _ hstep ih =>
    rcases h _ _ hstep with hold | ⟨rfl, rfl⟩
    · exact ih.imp (·.tail hold) fun ⟨hto, hfrom⟩ => ⟨hto, hfrom.tail hold⟩
    · exact .inr ⟨ih.elim id And.left, .refl⟩

theorem acyclic_insert (hG : Acyclic G) (hnot : ¬ ReflTransGen G b a)
    (h : ∀ x y, H x y → G x y ∨ x = a ∧ y = b) : Acyclic H := by
  intro x hx
  obtain ⟨y, hfirst, hrest⟩ := TransGen.head'_iff.1 hx
  rcases h x y hfirst with hold | ⟨rfl, rfl⟩
  · rcases reaches_insert h hrest with hin | ⟨hto, hfrom⟩
    · exact hG x (.head' hold hin)
    · exact hnot (hfrom.trans (.head hold hto))
  · exact hnot ((reaches_insert h hrest).elim id And.left)

/-- A path to `a` uses no edge from whose end `a` cannot be reached. -/
theorem transGen_avoiding {x : Nat} (h : ∀ x y, H x y → G x y ∨ ¬ ReflTransGen H y a)
    (hpath : TransGen H x a) : TransGen G x a := by
  induction hpath using TransGen.head_induction_on with
  | single hlast => exact .single ((h _ _ hlast).resolve_right fun hnot => hnot .refl)
  | head hstep hrest ih =>
    exact .head ((h _ _ hstep).resolve_right fun hnot => hnot hrest.to_reflTransGen) ih

/-- A path through an acyclic graph visits no node twice, so a stack that is one is not higher than
the number of nodes. -/
theorem length_le_of_isChain (hR : Acyclic R)
    (hchain : stack.IsChain fun f g => R f.1 g.1) (hlt : ∀ f ∈ stack, f.1 < n) :
    stack.length ≤ n := by
  have hpairs : stack.Pairwise fun f g => TransGen R f.1 g.1 := by
    apply List.IsChain.pairwise (R := fun f g : Nat × Nat => TransGen R f.1 g.1)
    exact hchain.imp fun _ _ h => TransGen.single h
  have hnodup : (stack.map Prod.fst).Nodup := by
    rw [List.Nodup, pairwise_map]
    refine hpairs.imp ?_
    intro f g hfg heq
    rw [heq] at hfg
    exact hR _ hfg
  have hsub : stack.map Prod.fst ⊆ List.range n := by
    intro x hx
    obtain ⟨f, hf, rfl⟩ := mem_map.1 hx
    exact mem_range.2 (hlt f hf)
  have hle := (hnodup.subperm hsub).length_le
  rwa [length_map, length_range] at hle

end KvmUnitTests.Foundation.GraphSearch
