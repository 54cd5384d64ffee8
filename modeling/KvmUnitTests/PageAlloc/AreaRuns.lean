import KvmUnitTests.PageAlloc.Runs

/-!
# Runs seen from one area

A plain operation does one of three things to an area that exists before it: it leaves the metadata
alone, cuts a free block and hands out its first part, or takes back an allocated block
(`AreaEffect`). `steps_area` is the induction over runs for a property of one area.
-/

set_option autoImplicit false

namespace KvmUnitTests.PageAlloc

open Foundation Lib

/-- What the operation `op` does to an area. -/
inductive AreaEffect (op : Op) (m : Mem) (a : MemArea) : Mem → MemArea → Prop where
  | same {m' : Mem} (agree : ∀ x ∈ a.tableBytes, m' x = m x) : AreaEffect op m a m' a
  | alloc {m' : Mem} {b j sz x' : Nat} {L L' : Nat → List Nat} (before : AreaInv Usable m a L)
      (block : FreeBlock m a b j) (le : sz ≤ j)
      (post : AllocPost a b j sz m m' a.maxOrder x' L L') :
      AreaEffect op m a m' { a with maxOrder := x' }
  | free {m' : Mem} {c : LiveBlock} {L L' : Nat → List Nat} (eq : op = .free c)
      (before : AreaInv Usable m a L) (block : AllocatedBlock m a c.pfn c.order)
      (post : FreePost a c.pfn c.order m m' L L') : AreaEffect op m a m' a

variable {img : Image} {i n : Nat} {s t : Sys}

section Effect

variable {op : Op}

theorem StepEffect.has (hs : SysInv img s) (h : StepEffect img s op t) (hn : s.alloc.Has n) :
    t.alloc.Has n := by
  cases h with
  | initArea inv effect => exact (effect.has_iff n).2 (.inl hn)
  | null => exact hn
  | alloc allowed effect zero | free live effect => exact ((effect.onArea hs.alloc).has_iff n).2 hn
  | write agree => exact hn

/-- The effect on an area other than the one an operation works on. -/
theorem OnArea.areaEffect_of_ne {a a' : PageAllocator} (h : OnArea a a' i) (ha : AllocatorInv img a)
    (hn : a.Has n) (hni : n ≠ i) :
    AreaEffect op a.mem (a.areas n) a'.mem (a'.areas n) := by
  rw [h.other n hni]
  exact .same fun x hx => h.agree n hn hni x (tableBytes_subset_bytes (ha.layout hn) hx)

theorem StepEffect.areaEffect (hs : SysInv img s) (h : StepEffect img s op t) (hn : s.alloc.Has n) :
    AreaEffect op s.alloc.mem (s.alloc.areas n) t.alloc.mem (t.alloc.areas n) := by
  have hl := hs.alloc.layout hn
  cases h with
  | initArea inv effect =>
    have hne := effect.areas_ne n fun heq => effect.not_has (heq ▸ hn)
    rw [hne]
    exact .same fun x hx => effect.agree n hn x (tableBytes_subset_bytes hl hx)
  | null => exact .same fun _ _ => rfl
  | @alloc r i b j a' L L' allowed effect zero =>
    have hon := effect.onArea hs.alloc
    by_cases hni : n = i
    · subst hni
      rw [hon.self]
      exact .alloc effect.before effect.block ((Nat.le_max_right _ _).trans effect.order_le)
        effect.post
    · exact hon.areaEffect_of_ne hs.alloc hn hni
  | @free b i a' L L' live effect =>
    have hon := effect.onArea hs.alloc
    by_cases hni : n = i
    · subst hni
      rw [effect.areas_self]
      exact .free rfl effect.before effect.block effect.post
    · exact hon.areaEffect_of_ne hs.alloc hn hni
  | write agree => exact .same fun x hx => agree n hn x (.inl hx)

theorem AreaEffect.area_eq {m m' : Mem} {a a' : MemArea} (h : AreaEffect op m a m' a') :
    ∃ x, a' = { a with maxOrder := x } := by
  cases h with
  | same agree | alloc before block le post | free eq before block post => exact ⟨_, rfl⟩

end Effect

variable {P : Sys → Op → Prop}

/-- What every effect on an area preserves holds at the end of a run. -/
theorem steps_area (hP : ∀ s op, P s op → Plain op)
    {I : Mem → MemArea → Prop} (hs : SysInv img s) (hn : s.alloc.Has n)
    (hstep : ∀ r op m' a', SysInv img r → r.alloc.Has n → P r op → Permitted img r op →
      I r.alloc.mem (r.alloc.areas n) → AreaEffect op r.alloc.mem (r.alloc.areas n) m' a' → I m' a')
    (h : Steps img P s t) (hI : I s.alloc.mem (s.alloc.areas n)) :
    SysInv img t ∧ t.alloc.Has n ∧ I t.alloc.mem (t.alloc.areas n) := by
  refine Run.invariant (I := fun r => SysInv img r ∧ r.alloc.Has n ∧
    I r.alloc.mem (r.alloc.areas n)) ?_ h ⟨hs, hn, hI⟩
  rintro r op r' ⟨hr, hrn, hIr⟩ ⟨hperm, hPr⟩ hrun
  have heff := hr.step_effect hperm (hP r op hPr) hrun
  exact ⟨hr.of_effect heff, heff.has hr hrn,
    hstep r op _ _ hr hrn hPr hperm hIr (heff.areaEffect hr hrn)⟩

theorem steps_area_eq (hP : ∀ s op, P s op → Plain op)
    (hs : SysInv img s) (h : Steps img P s t) (hn : s.alloc.Has n) :
    t.alloc.Has n ∧ ∃ x, t.alloc.areas n = { s.alloc.areas n with maxOrder := x } := by
  refine (steps_area hP (I := fun _ a => ∃ x, a = { s.alloc.areas n with maxOrder := x }) hs hn ?_ h
    ⟨_, rfl⟩).2
  rintro r op m' a' - - - - ⟨x, hx⟩ heff
  obtain ⟨y, hy⟩ := heff.area_eq
  refine ⟨y, ?_⟩
  rw [hy, hx]

/-- Every area was added by some step of the run. -/
theorem exists_initArea (hP : ∀ s op, P s op → Plain op)
    (h : Reachable img P t) (hn : t.alloc.Has n) :
    ∃ s s1 startPfn topPfn L, Reachable img P s ∧
      InitEffect s.alloc s1.alloc n startPfn topPfn L ∧ Steps img P s1 t ∧ SysInv img s1 := by
  obtain ⟨m, hm⟩ := h
  revert hn
  induction hm with
  | refl =>
    intro hn
    have hnone := hn.2
    rw [hasArea_eq] at hnone
    exact absurd hnone (by simp [Sys.boot, PageAllocator.boot])
  | @tail r r' hrun hlast ih =>
    intro hn
    have hr : Reachable img P r := ⟨m, hrun⟩
    have hinv := hr.inv hP
    obtain ⟨op, ⟨hperm, hPr⟩, hop⟩ := id hlast
    by_cases hrn : r.alloc.Has n
    · obtain ⟨s, s1, startPfn, topPfn, L, hs, heff, hsteps, hs1⟩ := ih hrn
      exact ⟨s, s1, startPfn, topPfn, L, hs, heff, hsteps.tail hlast, hs1⟩
    -- the area is new, so the last step added it
    have heff := hinv.step_effect hperm (hP r op hPr) hop
    have hinv' := hinv.of_effect heff
    cases heff with
    | @initArea i startPfn topPfn a' L inv effect =>
      obtain rfl : n = i := ((effect.has_iff n).1 hn).resolve_left hrn
      exact ⟨r, _, startPfn, topPfn, L, hr, effect, Relation.ReflTransGen.refl, hinv'⟩
    | null => exact absurd hn hrn
    | alloc allowed effect zero =>
      exact absurd (((effect.onArea hinv.alloc).has_iff n).1 hn) hrn
    | free live effect => exact absurd (((effect.onArea hinv.alloc).has_iff n).1 hn) hrn
    | write agree => exact absurd hn hrn

end KvmUnitTests.PageAlloc
