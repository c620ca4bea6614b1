import IKEv2.GoLang.Outcome

/-!
# Go slices

A Go slice is a window on a backing array: `data` are its `len` elements, `spare` the elements of
the array between `len` and `cap`.  A slice expression `s[i:j]` is checked against `cap`, not
against `len`, so it can bring elements of `spare` back into view; an index `s[i]` is checked
against `len`.  Both panic outside their range.

`slice_data`, `sliceFrom_data`, `index_getD` are the expressions with all bounds inside `len`: they
do not look at `spare`.

`Within u d`: a call of `u` on a slice with the elements `d` returns, and `spare` makes no difference.
-/

set_option linter.unusedVariables false

namespace GoLang

structure Slice (α : Type) where
  data : List α
  spare : List α
deriving DecidableEq, Repr

namespace Slice
variable {α : Type}

/-- a slice whose capacity is its length -/
def ofList (l : List α) : Slice α := ⟨l, []⟩

def len (s : Slice α) : Nat := s.data.length

def cap (s : Slice α) : Nat := s.data.length + s.spare.length

/-- `s[i]` -/
def index (s : Slice α) (i : Nat) : Outcome α :=
  match s.data[i]? with
  | some a => .ok a
  | none => .panic .indexOutOfRange

/-- `s[i:j]` -/
def slice (s : Slice α) (i j : Nat) : Outcome (Slice α) :=
  if i ≤ j ∧ j ≤ s.cap then
    .ok ⟨((s.data ++ s.spare).take j).drop i, (s.data ++ s.spare).drop j⟩
  else .panic .sliceOutOfRange

/-- `s[i:]` -/
def sliceFrom (s : Slice α) (i : Nat) : Outcome (Slice α) := s.slice i s.len

/-- `s[:j]` -/
def sliceTo (s : Slice α) (j : Nat) : Outcome (Slice α) := s.slice 0 j

/-- `s[len(s)-n:]` -/
def sliceLast (s : Slice α) (n : Nat) : Outcome (Slice α) :=
  if n ≤ s.len then s.sliceFrom (s.len - n) else .panic .sliceOutOfRange

/-- `s[:len(s)-n]` -/
def sliceInit (s : Slice α) (n : Nat) : Outcome (Slice α) :=
  if n ≤ s.len then s.sliceTo (s.len - n) else .panic .sliceOutOfRange

@[simp] theorem len_mk (d sp : List α) : (⟨d, sp⟩ : Slice α).len = d.length := rfl
@[simp] theorem data_ofList (l : List α) : (ofList l).data = l := rfl
@[simp] theorem spare_ofList (l : List α) : (ofList l).spare = [] := rfl
@[simp] theorem len_ofList (l : List α) : (ofList l).len = l.length := rfl

theorem index_mk_zero (a : α) (l sp : List α) : (⟨a :: l, sp⟩ : Slice α).index 0 = .ok a := rfl

theorem index_mk_succ (a : α) (l sp : List α) (i : Nat) :
    (⟨a :: l, sp⟩ : Slice α).index (i + 1) = (⟨l, sp⟩ : Slice α).index i := by
  simp [index]

theorem index_getD {d sp : List α} {i : Nat} (h : i < d.length) (a : α) :
    (⟨d, sp⟩ : Slice α).index i = .ok (d.getD i a) := by
  rw [index, List.getElem?_eq_getElem h, List.getD_eq_getElem?_getD, List.getElem?_eq_getElem h]
  rfl

theorem slice_data (s : Slice α) {i j : Nat} (hij : i ≤ j) (hj : j ≤ s.len) :
    s.slice i j = .ok ⟨(s.data.take j).drop i, s.data.drop j ++ s.spare⟩ := by
  have hj' : j ≤ s.data.length := hj
  have hc : j ≤ s.cap := by unfold cap; omega
  rw [slice, if_pos ⟨hij, hc⟩, List.take_append_of_le_length hj', List.drop_append_of_le_length hj']

theorem sliceFrom_data (s : Slice α) {i : Nat} (hi : i ≤ s.len) :
    s.sliceFrom i = .ok ⟨s.data.drop i, s.spare⟩ := by
  have hd : s.data.drop s.len = [] := by simp [len]
  rw [sliceFrom, slice_data s hi (Nat.le_refl _), hd, len, List.take_length, List.nil_append]

theorem sliceTo_data (s : Slice α) {j : Nat} (hj : j ≤ s.len) :
    s.sliceTo j = .ok ⟨s.data.take j, s.data.drop j ++ s.spare⟩ := by
  rw [sliceTo, slice_data s (Nat.zero_le _) hj, List.drop_zero]

theorem exists_slice (s : Slice α) {i j : Nat} (hij : i ≤ j) (hj : j ≤ s.len) :
    ∃ t, s.slice i j = .ok t ∧ t.data.length = j - i := by
  have hj' : j ≤ s.data.length := hj
  refine ⟨_, slice_data s hij hj, ?_⟩
  show ((s.data.take j).drop i).length = j - i
  rw [List.length_drop, List.length_take]
  omega

theorem index_returns {s : Slice α} {i : Nat} (h : i < s.len) : (s.index i).returns := by
  have hs : i < s.data.length := h
  rw [index, List.getElem?_eq_getElem hs]
  trivial

theorem slice_returns {s : Slice α} {i j : Nat} (hij : i ≤ j) (hj : j ≤ s.len) :
    (s.slice i j).returns := by
  rw [slice_data s hij hj]
  trivial

theorem sliceFrom_returns {s : Slice α} {i : Nat} (h : i ≤ s.len) : (s.sliceFrom i).returns := by
  rw [sliceFrom_data s h]
  trivial

theorem slice_panic (s : Slice α) {i j : Nat} (h : j < i) :
    s.slice i j = .panic .sliceOutOfRange := by
  rw [slice, if_neg (by omega)]

theorem sliceLast_data (s : Slice α) {n : Nat} (h : n ≤ s.len) :
    s.sliceLast n = .ok ⟨s.data.drop (s.len - n), s.spare⟩ := by
  rw [sliceLast, if_pos h, sliceFrom_data s (Nat.sub_le _ _)]

theorem sliceInit_data (s : Slice α) {n : Nat} (h : n ≤ s.len) :
    s.sliceInit n = .ok ⟨s.data.take (s.len - n), s.data.drop (s.len - n) ++ s.spare⟩ := by
  rw [sliceInit, if_pos h, sliceTo_data s (Nat.sub_le _ _)]

theorem sliceInit_append (d z : List α) : (ofList (d ++ z)).sliceInit z.length = .ok ⟨d, z⟩ := by
  have hlen : (ofList (d ++ z)).len - z.length = d.length := by
    rw [len_ofList, List.length_append]
    omega
  rw [sliceInit_data _ (by rw [len_ofList, List.length_append]; omega), hlen, data_ofList,
    List.take_left' rfl, List.drop_left' rfl, spare_ofList, List.append_nil]

theorem sliceLast_panic (s : Slice α) {n : Nat} (h : s.len < n) :
    s.sliceLast n = .panic .sliceOutOfRange := by
  rw [sliceLast, if_neg (by omega)]

theorem sliceTo_panic (l : List α) {j : Nat} (h : l.length < j) :
    (ofList l).sliceTo j = .panic .sliceOutOfRange := by
  have hcap : (ofList l).cap = l.length := rfl
  rw [sliceTo, slice, if_neg (by omega)]

end Slice

/-! ## calls that stay within their argument -/

/-- the call returns, and what lies behind the elements of its argument makes no difference -/
def Within {α β : Type} (u : Slice α → Outcome β) (d : List α) : Prop :=
  ∃ r : Outcome β, r.returns ∧ ∀ sp, u ⟨d, sp⟩ = r

namespace Within
variable {α β γ : Type} {u : Slice α → Outcome β} {d : List α}

theorem returns (h : Within u d) (sp : List α) : (u ⟨d, sp⟩).returns := by
  obtain ⟨r, hr, hu⟩ := h
  rw [hu]
  exact hr

theorem spare (h : Within u d) (sp sp' : List α) : u ⟨d, sp⟩ = u ⟨d, sp'⟩ := by
  obtain ⟨r, _, hu⟩ := h
  rw [hu, hu]

theorem of_fail (t : String) (h : ∀ sp, u ⟨d, sp⟩ = fail t) : Within u d :=
  ⟨fail t, trivial, h⟩

theorem of_ok {b : β} (h : ∀ sp, u ⟨d, sp⟩ = .ok b) : Within u d :=
  ⟨.ok b, trivial, h⟩

/-- the result of a call on a part of the argument is used -/
theorem map {d' : List α} {v : Slice α → Outcome γ} (f : β → γ) (h : Within u d)
    (hv : ∀ sp, v ⟨d', sp⟩ = f <$> u ⟨d, sp⟩) : Within v d' := by
  obtain ⟨r, hr, hu⟩ := h
  refine ⟨f <$> r, Outcome.returns_map.mpr hr, fun sp => ?_⟩
  rw [hv, hu]

/-- the call goes on with a part of its argument -/
theorem of_rest {d' : List α} {v : Slice α → Outcome β} (h : Within v d')
    (hu : ∀ sp, u ⟨d, sp⟩ = v ⟨d', sp⟩) : Within u d := by
  obtain ⟨r, hr, hv⟩ := h
  exact ⟨r, hr, fun sp => (hu sp).trans (hv sp)⟩

end Within

/-- data with a header of four octets: nothing, too little for the header, or the header and the
rest -/
theorem header_cases {α : Type} (l : List α) :
    l = [] ∨ (l ≠ [] ∧ l.length < 4) ∨ ∃ a b c d r, l = a :: b :: c :: d :: r := by
  rcases l with _ | ⟨a, _ | ⟨b, _ | ⟨c, _ | ⟨d, r⟩⟩⟩⟩
  · exact Or.inl rfl
  · exact Or.inr (Or.inl ⟨by simp, by simp⟩)
  · exact Or.inr (Or.inl ⟨by simp, by simp⟩)
  · exact Or.inr (Or.inl ⟨by simp, by simp⟩)
  · exact Or.inr (Or.inr ⟨a, b, c, d, r, rfl⟩)

theorem exists_cons8 {α : Type} (l : List α) (h : 8 ≤ l.length) :
    ∃ a b c d e f g i r, l = a :: b :: c :: d :: e :: f :: g :: i :: r := by
  match l, h with
  | a :: b :: c :: d :: e :: f :: g :: i :: r, _ => exact ⟨a, b, c, d, e, f, g, i, r, rfl⟩

end GoLang
