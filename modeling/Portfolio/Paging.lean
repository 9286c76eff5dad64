/-
# Cursors over a list that grows

A client reads a list page by page: each request carries a cursor, the key of
the last row it has been given, and is answered with the rows of greater keys
there are at that moment, in order, up to a limit. Rows are added between the
requests and never removed.

Whatever is added, the pages are in order and give no row twice. They are all
that is there at the end exactly if whatever was added since a page was read
is beyond the cursor of the next request (`Walk.complete_iff`).

Key definitions: `after`, `Visit`, `Walk`, `Beyond`.
Key theorems: `Walk.pairwise`, `Walk.complete_iff`, `Walk.pages_eq`,
`Walk.beyond_of_later`.
-/
import Mathlib.Data.List.Sort
import Mathlib.Data.List.Chain
import Mathlib.Order.Basic

namespace Paging

variable {α K : Type*} [LinearOrder K] (key : α → K)

/-- The rows beyond a cursor, in the order of their keys. -/
def after (c : K) (rows : List α) : List α :=
  (rows.filter fun r => decide (c < key r)).insertionSort fun a b => key a ≤ key b

/-- A request: the rows there are, the cursor, the page, and whether there is more. -/
structure Visit (α K : Type*) where
  rows : List α
  cursor : K
  page : List α
  more : Bool

/-- The page is the first rows beyond the cursor, some at least; there is more if these are not all. -/
def Visit.Answered (v : Visit α K) : Prop :=
  ∃ n, 0 < n ∧ v.page = (after key v.cursor v.rows).take n ∧ v.more = decide (n < (after key v.cursor v.rows).length)

/-- A walk from a cursor: each request goes on from the last row of the page before it, until there is
no more. -/
inductive Walk : K → List (Visit α K) → Prop
  | last {v : Visit α K} (hv : v.Answered key) (hmore : v.more = false) : Walk v.cursor [v]
  | page {v : Visit α K} {x : α} {vs : List (Visit α K)} (hv : v.Answered key) (hmore : v.more = true)
      (hx : v.page.getLast? = some x) (h : Walk (key x) vs) : Walk v.cursor (v :: vs)

/-- What has been added since the last request is beyond the cursor. -/
def Beyond (vs : List (Visit α K)) : Prop :=
  vs.IsChain fun v v' => ∀ x ∈ v'.rows, x ∉ v.rows → v'.cursor < key x

/-- The rows only grow, and no two have one key. -/
structure Grows (vs : List (Visit α K)) : Prop where
  kept : vs.Pairwise fun v v' => v.rows ⊆ v'.rows
  keyed : ∀ v ∈ vs, (v.rows.map key).Nodup

variable {key}

theorem mem_after {c : K} {rows : List α} {x : α} : x ∈ after key c rows ↔ x ∈ rows ∧ c < key x := by
  rw [after, List.mem_insertionSort, List.mem_filter, decide_eq_true_eq]

theorem after_pairwise {c : K} {rows : List α} (h : (rows.map key).Nodup) :
    (after key c rows).Pairwise fun a b => key a < key b := by
  have hsorted := List.pairwise_insertionSort (fun a b => key a ≤ key b) (rows.filter fun r => decide (c < key r))
  have hne : (after key c rows).Pairwise fun a b => key a ≠ key b := by
    rw [after, (List.perm_insertionSort _ _).pairwise_iff fun h => h.symm]
    exact (List.pairwise_map.mp h).filter _
  exact (hsorted.and hne).imp fun ⟨hle, hne⟩ => lt_of_le_of_ne hle hne

/-- Rows in order are all beyond a cursor below them. -/
theorem after_eq_self {c : K} {rows : List α} (h : rows.Pairwise fun a b => key a < key b)
    (hc : ∀ x ∈ rows, c < key x) : after key c rows = rows := by
  have hall : (rows.filter fun r => decide (c < key r)) = rows :=
    List.filter_eq_self.mpr fun x hx => decide_eq_true (hc x hx)
  rw [after, hall]
  exact List.Pairwise.insertionSort_eq (h.imp fun hab => le_of_lt hab)

section
variable {v : Visit α K}

theorem Visit.Answered.pairwise (h : v.Answered key) (hk : (v.rows.map key).Nodup) :
    v.page.Pairwise fun a b => key a < key b := by
  obtain ⟨n, -, hpage, -⟩ := h
  rw [hpage]
  exact (after_pairwise hk).take

/-- The last page is the rest. -/
theorem Visit.Answered.mem_last (h : v.Answered key) (hmore : v.more = false) {x : α} :
    x ∈ v.page ↔ x ∈ v.rows ∧ v.cursor < key x := by
  obtain ⟨n, -, hpage, hn⟩ := h
  rw [hmore, eq_comm, decide_eq_false_iff_not, not_lt] at hn
  rw [hpage, List.take_of_length_le hn, mem_after]

/-- Another page is what there is up to its last row. -/
theorem Visit.Answered.mem_page (h : v.Answered key) (hk : (v.rows.map key).Nodup) {y : α}
    (hy : v.page.getLast? = some y) {x : α} : x ∈ v.page ↔ x ∈ v.rows ∧ v.cursor < key x ∧ key x ≤ key y := by
  have hsorted := h.pairwise hk
  obtain ⟨n, -, hpage, -⟩ := h
  obtain ⟨xs, hxs⟩ := List.getLast?_eq_some_iff.mp hy
  have hle : ∀ z ∈ v.page, key z ≤ key y := by
    intro z hz
    rw [hxs, List.pairwise_append] at hsorted
    rw [hxs] at hz
    rcases List.mem_append.mp hz with hz | hz
    · exact le_of_lt (hsorted.2.2 z hz y (List.mem_singleton_self y))
    · rw [List.mem_singleton.mp hz]
  have hrest : ∀ z ∈ (after key v.cursor v.rows).drop n, key y < key z := by
    intro z hz
    have hall := after_pairwise (c := v.cursor) hk
    rw [← List.take_append_drop n (after key v.cursor v.rows), ← hpage, List.pairwise_append] at hall
    exact hall.2.2 y (by rw [hxs]; exact List.mem_append_right _ (List.mem_singleton_self y)) z hz
  constructor
  · intro hx
    have hmem : x ∈ after key v.cursor v.rows := List.mem_of_mem_take (hpage ▸ hx)
    exact ⟨(mem_after.mp hmem).1, (mem_after.mp hmem).2, hle x hx⟩
  · rintro ⟨hx, hc, hlex⟩
    have hmem : x ∈ after key v.cursor v.rows := mem_after.mpr ⟨hx, hc⟩
    rw [← List.take_append_drop n (after key v.cursor v.rows), ← hpage] at hmem
    exact (List.mem_append.mp hmem).resolve_right fun hd => not_lt_of_ge hlex (hrest x hd)

end

section
variable {c : K} {vs : List (Visit α K)}

omit [LinearOrder K] in
theorem Grows.tail {v : Visit α K} (h : Grows key (v :: vs)) : Grows key vs where
  kept := (List.pairwise_cons.mp h.kept).2
  keyed w hw := h.keyed w (List.mem_cons_of_mem _ hw)

omit [LinearOrder K] in
/-- What is there at the first request is there at the last. -/
theorem Grows.last {v l : Visit α K} (h : Grows key (v :: vs)) (hl : (v :: vs).getLast? = some l) :
    v.rows ⊆ l.rows := by
  rcases List.mem_cons.mp (List.mem_of_getLast? hl) with rfl | hl
  · exact List.Subset.refl _
  · exact (List.pairwise_cons.mp h.kept).1 l hl

theorem Walk.exists_cons (h : Walk key c vs) : ∃ v ws, vs = v :: ws := by
  cases h <;> exact ⟨_, _, rfl⟩

theorem Walk.cursor {v : Visit α K} (h : Walk key c (v :: vs)) : v.cursor = c := by
  cases h <;> rfl

theorem Walk.getLast?_cons (h : Walk key c vs) (v : Visit α K) : (v :: vs).getLast? = vs.getLast? := by
  cases h <;> rfl

/-- Every row of a walk is beyond its first cursor. -/
theorem Walk.bound (h : Walk key c vs) (hg : Grows key vs) : ∀ v ∈ vs, ∀ x ∈ v.page, c < key x := by
  induction h with
  | @last v hv hmore =>
    intro w hw x hx
    obtain rfl := List.mem_singleton.mp hw
    exact ((hv.mem_last hmore).mp hx).2
  | @page v y vs hv hmore hy h ih =>
    have hkeyed := hg.keyed v List.mem_cons_self
    have hlast := (hv.mem_page hkeyed hy).mp (List.mem_of_getLast? hy)
    intro w hw x hx
    rcases List.mem_cons.mp hw with rfl | hw
    · exact ((hv.mem_page hkeyed hy).mp hx).2.1
    · exact hlast.2.1.trans (ih hg.tail w hw x hx)

/-- **The pages of a walk are in order**, and no row is on two of them or twice on one. -/
theorem Walk.pairwise (h : Walk key c vs) (hg : Grows key vs) :
    (vs.flatMap (·.page)).Pairwise fun a b => key a < key b := by
  induction h with
  | @last v hv hmore =>
    rw [List.flatMap_singleton]
    exact hv.pairwise (hg.keyed v List.mem_cons_self)
  | @page v y vs hv hmore hy h ih =>
    have hkeyed := hg.keyed v List.mem_cons_self
    rw [List.flatMap_cons, List.pairwise_append]
    refine ⟨hv.pairwise hkeyed, ih hg.tail, fun a ha b hb => ?_⟩
    obtain ⟨w, hw, hb⟩ := List.mem_flatMap.mp hb
    exact lt_of_le_of_lt ((hv.mem_page hkeyed hy).mp ha).2.2 (h.bound hg.tail w hw b hb)

/-- What is there at the end and was not there at the first request is beyond the second cursor. -/
theorem Beyond.added {v l : Visit α K} (h : Walk key c vs) (hg : Grows key vs) (hb : Beyond key (v :: vs))
    (hl : vs.getLast? = some l) {x : α} (hx : x ∈ l.rows) (hv : x ∉ v.rows) : c < key x := by
  induction h generalizing v with
  | @last w hw hmore =>
    obtain rfl := Option.some.inj hl
    exact (List.isChain_cons_cons.mp hb).1 x hx hv
  | @page w y ws hw hmore hy h ih =>
    obtain ⟨hfirst, hb⟩ := List.isChain_cons_cons.mp hb
    by_cases hxw : x ∈ w.rows
    · exact hfirst x hxw hv
    · have hlast := (hw.mem_page (hg.keyed w List.mem_cons_self) hy).mp (List.mem_of_getLast? hy)
      rw [h.getLast?_cons] at hl
      exact hlast.2.1.trans (ih hg.tail hb hl hxw)

/-- Beyond the cursors nothing is skipped. -/
theorem Walk.mem_iff {l : Visit α K} (h : Walk key c vs) (hg : Grows key vs) (hb : Beyond key vs)
    (hl : vs.getLast? = some l) {x : α} : x ∈ vs.flatMap (·.page) ↔ x ∈ l.rows ∧ c < key x := by
  induction h with
  | @last v hv hmore =>
    obtain rfl := Option.some.inj hl
    rw [List.flatMap_singleton]
    exact hv.mem_last hmore
  | @page v y vs hv hmore hy h ih =>
    rw [h.getLast?_cons] at hl
    have hkeyed := hg.keyed v List.mem_cons_self
    have hlast := ((hv.mem_page hkeyed hy).mp (List.mem_of_getLast? hy)).2.1
    have hsub : v.rows ⊆ l.rows := (List.pairwise_cons.mp hg.kept).1 l (List.mem_of_getLast? hl)
    rw [List.flatMap_cons, List.mem_append, hv.mem_page hkeyed hy, ih hg.tail hb.tail hl]
    constructor
    · rintro (⟨hx, hc, -⟩ | ⟨hx, hc⟩)
      · exact ⟨hsub hx, hc⟩
      · exact ⟨hx, hlast.trans hc⟩
    · rintro ⟨hx, hc⟩
      rcases le_or_gt (key x) (key y) with hle | hgt
      · exact Or.inl ⟨of_not_not fun hv => not_lt_of_ge hle (hb.added h hg.tail hl hx hv), hc, hle⟩
      · exact Or.inr ⟨hx, hgt⟩

/-- If nothing is skipped, whatever was added was beyond the cursors. -/
theorem Walk.beyond {v l : Visit α K} (h : Walk key c (v :: vs)) (hg : Grows key (v :: vs))
    (hl : (v :: vs).getLast? = some l)
    (hall : ∀ x ∈ l.rows, x ∉ v.rows → x ∈ (v :: vs).flatMap (·.page)) : Beyond key (v :: vs) := by
  generalize hws : v :: vs = ws at h
  induction h generalizing v vs with
  | @last w hw hmore => exact .singleton w
  | @page w y ws hw hmore hy h ih =>
    obtain ⟨rfl, rfl⟩ := List.cons_eq_cons.mp hws
    have hsub : ∀ x ∈ v.page, x ∈ v.rows := fun x hx =>
      ((hw.mem_page (hg.keyed v List.mem_cons_self) hy).mp hx).1
    rw [h.getLast?_cons] at hl
    -- what is not there at the first request is on a later page
    have hlater : ∀ x ∈ l.rows, x ∉ v.rows → x ∈ vs.flatMap (·.page) := by
      intro x hx hxv
      rcases List.mem_append.mp (List.flatMap_cons ▸ hall x hx hxv) with hp | hp
      · exact absurd (hsub x hp) hxv
      · exact hp
    obtain ⟨v', vs, rfl⟩ := h.exists_cons
    have hkept := (List.pairwise_cons.mp hg.kept).1 v' List.mem_cons_self
    refine List.isChain_cons_cons.mpr ⟨fun x hx hxv => ?_, ?_⟩
    · rw [h.cursor]
      obtain ⟨w, hw, hxw⟩ := List.mem_flatMap.mp (hlater x (hg.tail.last hl hx) hxv)
      exact h.bound hg.tail w hw x hxw
    · exact ih hg.tail hl (fun x hx hxv' => hlater x hx fun hxv => hxv' (hkept hxv)) rfl

/-- **A walk gives all there is at its end exactly if what was added was beyond its cursors.** -/
theorem Walk.complete_iff {l : Visit α K} (h : Walk key c vs) (hg : Grows key vs) (hl : vs.getLast? = some l)
    (hc : ∀ x ∈ l.rows, c < key x) : (∀ x ∈ l.rows, x ∈ vs.flatMap (·.page)) ↔ Beyond key vs := by
  constructor
  · intro hall
    obtain ⟨v, vs, rfl⟩ := h.exists_cons
    exact h.beyond hg hl fun x hx _ => hall x hx
  · intro hb x hx
    exact (h.mem_iff hg hb hl).mpr ⟨hx, hc x hx⟩

/-- The pages of a complete walk are the rows in order. -/
theorem Walk.pages_eq {l : Visit α K} (h : Walk key c vs) (hg : Grows key vs) (hl : vs.getLast? = some l)
    (hb : Beyond key vs) : vs.flatMap (·.page) = after key c l.rows := by
  have hkeyed := hg.keyed l (List.mem_of_getLast? hl)
  have hirrefl : Std.Irrefl fun a b : α => key a < key b := ⟨fun a => lt_irrefl (key a)⟩
  refine (h.pairwise hg).eq_of_mem_iff (after_pairwise hkeyed) fun {x} => ?_
  rw [h.mem_iff hg hb hl, mem_after]

/-- Every row of a walk is there at its end. -/
theorem Walk.mem_last {l : Visit α K} (h : Walk key c vs) (hg : Grows key vs) (hl : vs.getLast? = some l) :
    ∀ x ∈ vs.flatMap (·.page), x ∈ l.rows := by
  induction h with
  | @last v hv hmore =>
    obtain rfl := Option.some.inj hl
    intro x hx
    rw [List.flatMap_singleton] at hx
    exact ((hv.mem_last hmore).mp hx).1
  | @page v y vs hv hmore hy h ih =>
    intro x hx
    rcases List.mem_append.mp (List.flatMap_cons ▸ hx) with hx | hx
    · exact hg.last hl ((hv.mem_page (hg.keyed v List.mem_cons_self) hy).mp hx).1
    · rw [h.getLast?_cons] at hl
      exact ih hg.tail hl x hx

/-- Rows that are added in the order of their keys are beyond the cursors. -/
theorem Walk.beyond_of_later (h : Walk key c vs) (hg : Grows key vs)
    (hlater : vs.Pairwise fun v v' => ∀ x ∈ v'.rows, x ∉ v.rows → ∀ y ∈ v.rows, key y < key x) : Beyond key vs := by
  induction h with
  | last => exact .singleton _
  | @page v y vs hv hmore hy h ih =>
    obtain ⟨hfirst, hlater⟩ := List.pairwise_cons.mp hlater
    have hrest := ih hg.tail hlater
    obtain ⟨v', vs, rfl⟩ := h.exists_cons
    refine List.isChain_cons_cons.mpr ⟨fun x hx hxv => ?_, hrest⟩
    rw [h.cursor]
    have hmem := (hv.mem_page (hg.keyed v List.mem_cons_self) hy).mp (List.mem_of_getLast? hy)
    exact hfirst v' List.mem_cons_self x hx hxv y hmem.1

end

end Paging
