import KvmUnitTests.Pci.Registers

/-!
# Addresses taken from the windows

`pci_alloc_resource` takes each base address from the first window of its type, behind what has
been taken before and aligned to the size. `Placed` is a sequence of such steps. A step keeps
within its window as long as its 64-bit sum does not wrap, and in windows that end at or below
`2 ^ 63` this can happen in one case only: the size is `2 ^ 63`, the window starts at zero and
something has been taken from it already (`AddrSpace.take_spec`). Then the check against the size
of the window succeeds with the sum zero, and the address `2 ^ 63` lies outside.

So either no base address of that size comes behind another one in such a window, and everything is
placed inside, apart from each other; or one does, and it lies outside (`Placed.clean_or_outside`).
-/

set_option autoImplicit false

namespace KvmUnitTests.Pci

open Foundation Lib List

/-! ## One step -/

/-- Everything of a window but what has been taken from it. -/
def AddrSpace.fresh (as : AddrSpace) : AddrSpace := { as with allocated := 0 }

variable {addr i j k size : Nat} {as as' x : AddrSpace}

theorem AddrSpace.take_eq_ok (h : as.take size = .ok (addr, as')) :
    let base := add64 as.pciStart as.allocated
    let total := add64 as.allocated (add64 size (sub64 addr base))
    addr = align64 base size ∧ total ≤ as.size ∧ as' = { as with allocated := total } := by
  obtain ⟨hfits, h⟩ := assert_bind_eq_ok h
  cases h
  exact ⟨rfl, of_decide_eq_true hfits, rfl⟩

/-- The address is aligned, and it is behind what was taken before and inside the window, unless the
sum wraps. -/
theorem AddrSpace.take_spec (hk : k < 64) (hend : as.pciStart + as.size ≤ 2 ^ 63)
    (htaken : as.allocated ≤ as.size) (h : as.take (2 ^ k) = .ok (addr, as')) :
    as'.fresh = as.fresh ∧ as'.allocated ≤ as.size ∧ 2 ^ k ∣ addr ∧ addr < 2 ^ 64 ∧
      (as.pciStart + as.allocated ≤ addr ∧ addr + 2 ^ k = as.pciStart + as'.allocated ∨
        k = 63 ∧ as.pciStart = 0 ∧ 0 < as.allocated ∧ addr = 2 ^ 63) := by
  obtain ⟨haddr, hfits, rfl⟩ := AddrSpace.take_eq_ok h
  have hpos := Nat.two_pow_pos k
  have hbase : add64 as.pciStart as.allocated = as.pciStart + as.allocated :=
    add64_of_lt (by omega)
  rw [hbase] at haddr hfits
  have hbase64 : as.pciStart + as.allocated < 2 ^ 64 := by omega
  have hle := le_roundUp (x := as.pciStart + as.allocated) hpos
  have hlt := roundUp_lt (x := as.pciStart + as.allocated) hpos
  have hdvd := dvd_roundUp (as.pciStart + as.allocated) (2 ^ k)
  have halign := align64_eq hbase64 hk.le
  have hpad := sub64_align64 hbase64 hk
  rw [← haddr] at halign hpad
  rw [hpad] at hfits
  refine ⟨rfl, ?_, ?_, ?_, ?_⟩
  · rw [hbase, hpad]
    exact hfits
  · rw [halign]
    exact (Nat.dvd_mod_iff (pow_dvd_pow 2 hk.le)).2 hdvd
  · rw [halign]
    exact Nat.mod_lt _ (Nat.two_pow_pos 64)
  · dsimp only
    rw [hbase, hpad]
    generalize roundUp (as.pciStart + as.allocated) (2 ^ k) = up at *
    by_cases hbig : k = 63
    · -- a multiple of 2 ^ 63: zero, 2 ^ 63 or 2 ^ 64
      subst hbig
      obtain ⟨q, rfl⟩ := hdvd
      unfold add64 at hfits ⊢
      rcases Nat.eq_zero_or_pos (as.pciStart + as.allocated) with hzero | hsome
      · left
        omega
      · right
        refine ⟨rfl, ?_, ?_, ?_⟩ <;> omega
    · -- nothing wraps
      have hsmall : 2 ^ k ≤ 2 ^ 62 := Nat.pow_le_pow_right (by decide) (by omega)
      left
      unfold add64 at hfits ⊢
      rw [halign, Nat.mod_eq_of_lt (by omega)]
      constructor
      · exact hle
      · omega

/-! ## Sequences of steps -/

variable {hw : Nat → DevFn} {ws₀ ws : List AddrSpace} {es : List Assignment}

/-- The first window whose type matches a base address. -/
def windowOf (hw : Nat → DevFn) (ws : List AddrSpace) (q : Nat × Nat) : Option Nat :=
  ws.findIdx? fun as => as.type == windowType ((hw q.1).info q.2)

def Assignment.key (e : Assignment) : Nat × Nat := (e.dev, e.bar)

def sizeOf (hw : Nat → DevFn) (q : Nat × Nat) : Nat := (hw q.1).barSize q.2

/-- The base addresses of `es` have been taken, in this order, from the windows `ws₀`. -/
inductive Placed (hw : Nat → DevFn) (ws₀ : List AddrSpace) :
    List Assignment → List AddrSpace → Prop where
  | nil : Placed hw ws₀ [] ws₀
  | snoc {es : List Assignment} {ws : List AddrSpace} {e : Assignment} {j : Nat}
      {as as' : AddrSpace} (hplaced : Placed hw ws₀ es ws) (hwindow : windowOf hw ws e.key = some j)
      (has : ws[j]? = some as) (htake : as.take (sizeOf hw e.key) = .ok (e.addr, as')) :
      Placed hw ws₀ (es ++ [e]) (ws.set j as')

/-- The base address lies inside its window. -/
def Inside (hw : Nat → DevFn) (ws₀ : List AddrSpace) (e : Assignment) : Prop :=
  ∃ j as, windowOf hw ws₀ e.key = some j ∧ ws₀[j]? = some as ∧ as.pciStart ≤ e.addr ∧
    e.addr + sizeOf hw e.key ≤ as.pciStart + as.size

/-- A base address `q` of size `2 ^ 63` behind another one in a window that starts at zero. -/
def Overruns (hw : Nat → DevFn) (ws₀ : List AddrSpace) (p q : Nat × Nat) : Prop :=
  sizeOf hw q = 2 ^ 63 ∧ ∃ j as, windowOf hw ws₀ p = some j ∧ windowOf hw ws₀ q = some j ∧
    ws₀[j]? = some as ∧ as.pciStart = 0

/-- No base address overruns its window. -/
def Fits (hw : Nat → DevFn) (ws₀ : List AddrSpace) (qs : List (Nat × Nat)) : Prop :=
  qs.Pairwise fun p q => ¬ Overruns hw ws₀ p q

/-- Everything lies behind what was taken before, and nothing has been taken otherwise. -/
structure Clean (hw : Nat → DevFn) (ws₀ : List AddrSpace) (es : List Assignment)
    (ws : List AddrSpace) : Prop where
  below : ∀ e ∈ es, ∀ j as, windowOf hw ws₀ e.key = some j → ws[j]? = some as →
    as.pciStart ≤ e.addr ∧ e.addr + sizeOf hw e.key ≤ as.pciStart + as.allocated
  apart : es.Pairwise fun e e' => windowOf hw ws₀ e.key = windowOf hw ws₀ e'.key →
    e.addr + sizeOf hw e.key ≤ e'.addr
  taken : ∀ j as, ws[j]? = some as → 0 < as.allocated → ∃ e ∈ es, windowOf hw ws₀ e.key = some j

theorem set_of_getElem? {α : Type} {l : List α} {a : α} (h : l[j]? = some a) : l.set j a = l := by
  obtain ⟨hj, rfl⟩ := List.getElem?_eq_some_iff.1 h
  exact set_getElem_self hj

theorem windowOf_congr {q : Nat × Nat} (h : ws.map AddrSpace.fresh = ws₀) :
    windowOf hw ws q = windowOf hw ws₀ q := by
  unfold windowOf
  rw [← h, List.findIdx?_map]
  rfl

section
variable {e : Assignment}

theorem getElem?_set_cases (has : ws[j]? = some as) (hx : (ws.set j as')[i]? = some x) :
    i = j ∧ x = as' ∨ i ≠ j ∧ ws[i]? = some x := by
  have hj := (List.getElem?_eq_some_iff.1 has).1
  by_cases hij : i = j
  · subst hij
    rw [List.getElem?_set_self hj] at hx
    exact .inl ⟨rfl, (Option.some.inj hx).symm⟩
  · rw [List.getElem?_set_ne (Ne.symm hij)] at hx
    exact .inr ⟨hij, hx⟩

variable (h : Clean hw ws₀ es ws) (hwindow : windowOf hw ws₀ e.key = some j)
include h hwindow

/-- What has been taken from a window lies inside it. -/
theorem Clean.inside (hfresh : ws.map AddrSpace.fresh = ws₀)
    (hle : ∀ as ∈ ws, as.allocated ≤ as.size) (he : e ∈ es) : Inside hw ws₀ e := by
  have hlt : j < ws.length := by
    have hj := (List.findIdx?_eq_some_iff_getElem.1 hwindow).1
    rwa [← hfresh, length_map] at hj
  have has := List.getElem?_eq_getElem hlt
  have hbelow := h.below e he j _ hwindow has
  refine ⟨j, ws[j].fresh, hwindow, ?_, hbelow.1, hbelow.2.trans ?_⟩
  · rw [← hfresh, List.getElem?_map, has]
    rfl
  · exact Nat.add_le_add_left (hle _ (getElem_mem hlt)) _

theorem Clean.snoc (has : ws[j]? = some as) (hstart : as'.pciStart = as.pciStart)
    (hlo : as.pciStart + as.allocated ≤ e.addr)
    (hhi : e.addr + sizeOf hw e.key = as.pciStart + as'.allocated) :
    Clean hw ws₀ (es ++ [e]) (ws.set j as') := by
  constructor
  case below =>
    intro x hx i as'' hi hget
    rcases mem_append.1 hx with hx | hx
    · rcases getElem?_set_cases has hget with ⟨rfl, rfl⟩ | ⟨-, hget⟩
      · have hbelow := h.below x hx i as hi has
        omega
      · exact h.below x hx i as'' hi hget
    · cases mem_singleton.1 hx
      cases hwindow.symm.trans hi
      rcases getElem?_set_cases has hget with ⟨-, rfl⟩ | ⟨hne, -⟩
      · omega
      · exact absurd rfl hne
  case apart =>
    refine pairwise_append.2 ⟨h.apart, pairwise_singleton _ _, fun x hx y hy hxy => ?_⟩
    cases mem_singleton.1 hy
    have hbelow := h.below x hx j as (hxy.trans hwindow) has
    omega
  case taken =>
    intro i as'' hget hpos
    rcases getElem?_set_cases has hget with ⟨rfl, -⟩ | ⟨-, hget⟩
    · exact ⟨e, mem_append_right _ (mem_singleton_self e), hwindow⟩
    · obtain ⟨x, hx, hi⟩ := h.taken i as'' hget hpos
      exact ⟨x, mem_append_left _ hx, hi⟩

/-- What lies inside its window does not overrun it. -/
theorem Clean.not_overruns {x : Assignment} (hx : x ∈ es) (hpos : 0 < sizeOf hw x.key)
    (has0 : ws₀[j]? = some as.fresh) (has : ws[j]? = some as)
    (hlo : as.pciStart + as.allocated ≤ e.addr) (hhi : e.addr + sizeOf hw e.key ≤ 2 ^ 63) :
    ¬ Overruns hw ws₀ x.key e.key := by
  rintro ⟨hbig, i, as'', hxi, hei, hget, hstart⟩
  cases hwindow.symm.trans hei
  cases has0.symm.trans hget
  have hbelow := h.below x hx j as hxi has
  omega

end

section
variable (hends : ∀ as ∈ ws₀, as.pciStart + as.size ≤ 2 ^ 63)
  (hzero : ∀ as ∈ ws₀, as.allocated = 0)
include hends hzero

section

variable (hsizes : ∀ e ∈ es, ∃ k < 64, sizeOf hw e.key = 2 ^ k) (h : Placed hw ws₀ es ws)

include hsizes h

/-- The windows stay what they are, and what has been taken is at most their size. -/
theorem Placed.windows : ws.map AddrSpace.fresh = ws₀ ∧ ∀ as ∈ ws, as.allocated ≤ as.size := by
  induction h with
  | nil =>
    refine ⟨?_, fun as has => ?_⟩
    · refine (map_congr_left fun as has => ?_).trans (map_id _)
      rw [AddrSpace.fresh, ← hzero as has]
      rfl
    · rw [hzero as has]
      exact Nat.zero_le _
  | @snoc es ws e j as as' hplaced hwindow has htake ih =>
    obtain ⟨hfresh, hle⟩ := ih fun e he => hsizes e (mem_append_left _ he)
    obtain ⟨k, hk, hsize⟩ := hsizes e (mem_append_right _ (mem_singleton_self e))
    rw [hsize] at htake
    have hmem := mem_of_getElem? has
    have hend : as.pciStart + as.size ≤ 2 ^ 63 :=
      hends as.fresh (hfresh ▸ mem_map_of_mem hmem)
    obtain ⟨hsame, htaken, -⟩ := AddrSpace.take_spec hk hend (hle as hmem) htake
    have hsize' : as'.fresh.size = as.fresh.size := congrArg AddrSpace.size hsame
    refine ⟨?_, fun x hx => ?_⟩
    · rw [map_set, hsame, hfresh]
      refine set_of_getElem? ?_
      rw [← hfresh, List.getElem?_map, has]
      rfl
    · rcases mem_or_eq_of_mem_set hx with hx | rfl
      · exact hle x hx
      · exact htaken.trans_eq hsize'.symm

theorem Placed.aligned : ∀ e ∈ es, sizeOf hw e.key ∣ e.addr := by
  induction h with
  | nil => exact nofun
  | @snoc es ws e j as as' hplaced hwindow has htake ih =>
    have hsizes' : ∀ e ∈ es, ∃ k < 64, sizeOf hw e.key = 2 ^ k :=
      fun e he => hsizes e (mem_append_left _ he)
    intro x hx
    rcases mem_append.1 hx with hx | hx
    · exact ih hsizes' x hx
    · cases mem_singleton.1 hx
      obtain ⟨k, hk, hsize⟩ := hsizes e (mem_append_right _ (mem_singleton_self e))
      obtain ⟨hfresh, hle⟩ := hplaced.windows hends hzero hsizes'
      have hmem := mem_of_getElem? has
      have hend : as.pciStart + as.size ≤ 2 ^ 63 :=
        hends as.fresh (hfresh ▸ mem_map_of_mem hmem)
      rw [hsize] at htake ⊢
      exact (AddrSpace.take_spec hk hend (hle as hmem) htake).2.2.1

/-- Either nothing overruns its window and everything is in order, or something lies outside. -/
theorem Placed.clean_or_outside :
    Clean hw ws₀ es ws ∧ Fits hw ws₀ (es.map Assignment.key) ∨
      (∃ e ∈ es, ¬ Inside hw ws₀ e) ∧ ¬ Fits hw ws₀ (es.map Assignment.key) := by
  induction h with
  | nil =>
    refine .inl ⟨⟨nofun, .nil, fun j as has htaken => ?_⟩, .nil⟩
    rw [hzero as (mem_of_getElem? has)] at htaken
    exact absurd htaken (lt_irrefl 0)
  | @snoc es ws e j as as' hplaced hwindow has htake ih =>
    have hsizes' : ∀ e ∈ es, ∃ k < 64, sizeOf hw e.key = 2 ^ k :=
      fun e he => hsizes e (mem_append_left _ he)
    obtain ⟨k, hk, hsize⟩ := hsizes e (mem_append_right _ (mem_singleton_self e))
    obtain ⟨hfresh, hle⟩ := hplaced.windows hends hzero hsizes'
    rw [windowOf_congr hfresh] at hwindow
    have hmem := mem_of_getElem? has
    have has0 : ws₀[j]? = some as.fresh := by
      rw [← hfresh, List.getElem?_map, has]
      rfl
    have hend : as.pciStart + as.size ≤ 2 ^ 63 := hends as.fresh (mem_of_getElem? has0)
    rw [hsize] at htake
    obtain ⟨hsame, htaken, -, -, hstep⟩ := AddrSpace.take_spec hk hend (hle as hmem) htake
    have hstart : as'.pciStart = as.pciStart :=
      show as'.fresh.pciStart = as.fresh.pciStart from congrArg AddrSpace.pciStart hsame
    have hkeys : (es ++ [e]).map Assignment.key = es.map Assignment.key ++ [e.key] := by
      rw [map_append]
      rfl
    rw [hkeys]
    rcases ih hsizes' with ⟨hclean, hfits⟩ | ⟨⟨x, hx, hout⟩, hover⟩
    · rcases hstep with ⟨hlo, hhi⟩ | ⟨hbig, hzero', hsome, haddr⟩
      · rw [← hsize] at hhi
        refine .inl ⟨hclean.snoc hwindow has hstart hlo hhi, ?_⟩
        refine pairwise_append.2 ⟨hfits, pairwise_singleton _ _, fun p hp q hq => ?_⟩
        cases mem_singleton.1 hq
        obtain ⟨x, hx, rfl⟩ := mem_map.1 hp
        obtain ⟨k', -, hsize'⟩ := hsizes' x hx
        have hpos : 0 < sizeOf hw x.key := hsize' ▸ Nat.two_pow_pos k'
        exact hclean.not_overruns hwindow hx hpos has0 has hlo (by omega)
      · -- the sum wraps, and the address is at the end of every window
        have hpow : sizeOf hw e.key = 2 ^ 63 := by rw [hsize, hbig]
        refine .inr ⟨⟨e, mem_append_right _ (mem_singleton_self e), ?_⟩, fun hall => ?_⟩
        · rintro ⟨i, as'', hi, hget, -, hhi⟩
          cases hwindow.symm.trans hi
          cases has0.symm.trans hget
          have hhi' : e.addr + sizeOf hw e.key ≤ as.pciStart + as.size := hhi
          omega
        · obtain ⟨x, hx, hi⟩ := hclean.taken j as has hsome
          exact (pairwise_append.1 hall).2.2 x.key (mem_map_of_mem hx) e.key
            (mem_singleton_self _) ⟨hpow, j, as.fresh, hi, hwindow, has0, hzero'⟩
    · refine .inr ⟨⟨x, mem_append_left _ hx, hout⟩, fun hfits => hover ?_⟩
      exact (pairwise_append.1 hfits).1

end

end

end KvmUnitTests.Pci
