import Mathlib.Algebra.BigOperators.Group.List.Basic
import Mathlib.Algebra.GroupWithZero.Nat
import Mathlib.Data.List.Nodup

/-!
# Lists with one element for each key

`put key l a` is what storing `a` does to a map that remembers the order of arrival: an element with
the same key is replaced where it stands, a new key goes to the end.  `putAll` stores a whole list.

* `nodup_putAll`        the keys stay distinct;
* `putAll_of_nodup`     distinct keys are simply listed;
* `map_putAll`          maps that keep the keys commute with storing;
* `sum_putAll_le`, `nodup_of_sum_putAll`   storing never makes the list larger than its input, and
                        as large only if no key occurs twice;
* `putAll_trail_iff`    storing a list in which some elements have a mark behind them.
-/

set_option linter.unusedVariables false

namespace GoLang
variable {α β κ : Type} [DecidableEq κ] (key : α → κ)

def put (l : List α) (a : α) : List α :=
  if key a ∈ l.map key then l.map fun x => if key x = key a then a else x else l ++ [a]

def putAll (l as : List α) : List α := as.foldl (put key) l

theorem putAll_cons (l : List α) (a : α) (as : List α) :
    putAll key l (a :: as) = putAll key (put key l a) as := rfl

theorem put_new {l : List α} {a : α} (h : key a ∉ l.map key) : put key l a = l ++ [a] := if_neg h

theorem put_old {l : List α} {a : α} (h : key a ∈ l.map key) :
    put key l a = l.map fun x => if key x = key a then a else x := if_pos h

theorem map_key_put (l : List α) (a : α) :
    (put key l a).map key =
      if key a ∈ l.map key then l.map key else l.map key ++ [key a] := by
  by_cases h : key a ∈ l.map key
  · rw [put_old key h, if_pos h, List.map_map]
    refine List.map_congr_left fun x _ => ?_
    show key (if key x = key a then a else x) = key x
    by_cases hx : key x = key a
    · rw [if_pos hx, hx]
    · rw [if_neg hx]
  · rw [put_new key h, if_neg h, List.map_append]
    rfl

theorem nodup_put {l : List α} (h : (l.map key).Nodup) (a : α) :
    ((put key l a).map key).Nodup := by
  rw [map_key_put]
  by_cases ha : key a ∈ l.map key
  · rw [if_pos ha]
    exact h
  · rw [if_neg ha, ← List.concat_eq_append]
    exact h.concat ha

theorem nodup_putAll {l : List α} (h : (l.map key).Nodup) (as : List α) :
    ((putAll key l as).map key).Nodup := by
  induction as generalizing l with
  | nil => exact h
  | cons a as ih => exact ih (nodup_put key h a)

theorem mem_map_putAll {l as : List α} {k : κ} :
    k ∈ (putAll key l as).map key ↔ k ∈ l.map key ∨ k ∈ as.map key := by
  induction as generalizing l with
  | nil => simp [putAll]
  | cons a as ih =>
    rw [putAll_cons, ih, map_key_put, List.map_cons, List.mem_cons]
    by_cases ha : key a ∈ l.map key
    · rw [if_pos ha]
      constructor
      · intro h
        rcases h with h | h
        · exact Or.inl h
        · exact Or.inr (Or.inr h)
      · intro h
        rcases h with h | rfl | h
        · exact Or.inl h
        · exact Or.inl ha
        · exact Or.inr h
    · rw [if_neg ha, List.mem_append, List.mem_singleton, or_assoc]

theorem putAll_of_nodup (l as : List α) (h : ((l ++ as).map key).Nodup) :
    putAll key l as = l ++ as := by
  induction as generalizing l with
  | nil => rw [List.append_nil]; rfl
  | cons a as ih =>
    have hnew : key a ∉ l.map key := by
      intro ha
      rw [List.map_append, List.nodup_append] at h
      exact h.2.2 _ ha _ (List.mem_map_of_mem (List.mem_cons_self ..)) rfl
    rw [putAll_cons, put_new key hnew, ih]
    · rw [List.append_assoc]
      rfl
    · rw [List.append_assoc]
      exact h

/-- maps that keep the keys commute with storing -/
theorem map_put {key' : β → κ} {f : α → β} (hf : ∀ x, key' (f x) = key x) (l : List α) (a : α) :
    (put key l a).map f = put key' (l.map f) (f a) := by
  have hk : (l.map f).map key' = l.map key := by
    rw [List.map_map]
    exact List.map_congr_left fun x _ => hf x
  by_cases h : key a ∈ l.map key
  · rw [put_old key h, put_old key' (by rw [hk, hf]; exact h), List.map_map, List.map_map]
    refine List.map_congr_left fun x _ => ?_
    show f (if key x = key a then a else x) = if key' (f x) = key' (f a) then f a else f x
    rw [hf, hf]
    by_cases hx : key x = key a
    · rw [if_pos hx, if_pos hx]
    · rw [if_neg hx, if_neg hx]
  · rw [put_new key h, put_new key' (by rw [hk, hf]; exact h), List.map_append]
    rfl

theorem map_putAll {key' : β → κ} {f : α → β} (hf : ∀ x, key' (f x) = key x) (l as : List α) :
    (putAll key l as).map f = putAll key' (l.map f) (as.map f) := by
  induction as generalizing l with
  | nil => rfl
  | cons a as ih => rw [putAll_cons, ih, map_put key hf]; rfl

/-! ## what is in the list -/

theorem putAll_append (l as bs : List α) :
    putAll key l (as ++ bs) = putAll key (putAll key l as) bs := List.foldl_append ..

theorem mem_put {l : List α} {a x : α} (h : x ∈ put key l a) : x = a ∨ x ∈ l ∧ key x ≠ key a := by
  by_cases ha : key a ∈ l.map key
  · rw [put_old key ha] at h
    obtain ⟨y, hy, hx⟩ := List.mem_map.mp h
    by_cases hk : key y = key a
    · rw [if_pos hk] at hx
      exact Or.inl hx.symm
    · rw [if_neg hk] at hx
      subst hx
      exact Or.inr ⟨hy, hk⟩
  · rw [put_new key ha, List.mem_append, List.mem_singleton] at h
    rcases h with h | h
    · exact Or.inr ⟨h, fun hk => ha (by rw [← hk]; exact List.mem_map_of_mem h)⟩
    · exact Or.inl h

theorem mem_of_mem_putAll {l as : List α} {x : α} (h : x ∈ putAll key l as) : x ∈ l ∨ x ∈ as := by
  induction as generalizing l with
  | nil => exact Or.inl h
  | cons a as ih =>
    rcases ih h with h | h
    · rcases mem_put key h with rfl | h
      · exact Or.inr (List.mem_cons_self ..)
      · exact Or.inl h.1
    · exact Or.inr (List.mem_cons_of_mem _ h)

/-- storing what is there changes nothing -/
theorem put_mem {l : List α} (hn : (l.map key).Nodup) {a : α} (ha : a ∈ l) : put key l a = l := by
  rw [put_old key (List.mem_map_of_mem ha)]
  conv_rhs => rw [← List.map_id l]
  refine List.map_congr_left fun x hx => ?_
  by_cases hk : key x = key a
  · rw [if_pos hk]
    exact (List.inj_on_of_nodup_map hn hx ha hk).symm
  · exact if_neg hk

/-- keys stay where they are -/
theorem map_key_putAll (l as : List α) : ∃ ks, (putAll key l as).map key = l.map key ++ ks := by
  induction as generalizing l with
  | nil => exact ⟨[], (List.append_nil _).symm⟩
  | cons a as ih =>
    obtain ⟨ks, hks⟩ := ih (put key l a)
    rw [map_key_put] at hks
    by_cases ha : key a ∈ l.map key
    · rw [if_pos ha] at hks
      exact ⟨ks, hks⟩
    · rw [if_neg ha, List.append_assoc] at hks
      exact ⟨_, hks⟩

/-! ## looking up a key -/

theorem find?_of_mem {l : List α} (hn : (l.map key).Nodup) {a : α} (ha : a ∈ l) :
    (l.find? fun x => key x = key a) = some a := by
  induction l with
  | nil => exact absurd ha (by simp)
  | cons b l ih =>
    rw [List.map_cons, List.nodup_cons] at hn
    rcases List.mem_cons.mp ha with rfl | hl
    · rw [List.find?_cons_of_pos (by simp)]
    · have hne : key b ≠ key a := by
        intro hb
        exact hn.1 (by rw [hb]; exact List.mem_map_of_mem hl)
      rw [List.find?_cons_of_neg (by simpa using hne)]
      exact ih hn.2 hl

theorem find?_isNone {l : List α} {k : κ} :
    (l.find? fun a => key a = k).isNone ↔ k ∉ l.map key := by
  rw [Option.isNone_iff_eq_none, List.find?_eq_none]
  simp

theorem find?_put (l : List α) (a : α) (k : κ) :
    ((put key l a).find? fun x => key x = k) =
      if k = key a then some a else l.find? fun x => key x = k := by
  by_cases ha : key a ∈ l.map key
  · rw [put_old key ha]
    induction l with
    | nil => exact absurd ha (by simp)
    | cons b l ih =>
      rw [List.map_cons]
      by_cases hb : key b = key a
      · rw [if_pos hb]
        by_cases hk : k = key a
        · rw [if_pos hk, List.find?_cons_of_pos (by simp [hk])]
        · rw [if_neg hk, List.find?_cons_of_neg (by simpa using Ne.symm hk),
            List.find?_cons_of_neg (by rw [hb]; simpa using Ne.symm hk)]
          by_cases ha' : key a ∈ l.map key
          · rw [ih ha', if_neg hk]
          · congr 1
            conv_rhs => rw [← List.map_id l]
            refine List.map_congr_left fun x hx => if_neg ?_
            intro hxa
            exact ha' (by rw [← hxa]; exact List.mem_map_of_mem hx)
      · rw [if_neg hb]
        have ha' : key a ∈ l.map key := by
          rcases List.mem_cons.mp ha with h | h
          · exact absurd h.symm hb
          · exact h
        by_cases hbk : key b = k
        · rw [List.find?_cons_of_pos (by simpa using hbk),
            List.find?_cons_of_pos (by simpa using hbk), if_neg]
          intro hk
          exact hb (hbk.trans hk)
        · rw [List.find?_cons_of_neg (by simpa using hbk),
            List.find?_cons_of_neg (by simpa using hbk), ih ha']
  · rw [put_new key ha, List.find?_append]
    by_cases hk : k = key a
    · have hnone : (l.find? fun x => key x = k) = none :=
        Option.isNone_iff_eq_none.mp ((find?_isNone key).mpr (by rw [hk]; exact ha))
      rw [if_pos hk, hnone, List.find?_cons_of_pos (by simp [hk])]
      rfl
    · rw [if_neg hk, List.find?_cons_of_neg (by simpa using Ne.symm hk), List.find?_nil,
        Option.or_none]

/-! ## sizes -/

section
variable (f : α → Nat)

theorem sum_replace {l : List α} (h : (l.map key).Nodup) {a x : α} (hx : x ∈ l)
    (hk : key x = key a) :
    ((l.map fun y => if key y = key a then a else y).map f).sum + f x = (l.map f).sum + f a := by
  induction l with
  | nil => exact absurd hx (by simp)
  | cons y l ih =>
    rw [List.map_cons, List.nodup_cons] at h
    simp only [List.map_cons, List.sum_cons]
    rcases List.mem_cons.mp hx with rfl | hxl
    · have hrest : (l.map fun y => if key y = key a then a else y) = l := by
        conv_rhs => rw [← List.map_id l]
        refine List.map_congr_left fun z hz => if_neg ?_
        intro hza
        exact h.1 (by rw [hk, ← hza]; exact List.mem_map_of_mem hz)
      rw [if_pos hk, hrest]
      omega
    · have hy : key y ≠ key a := by
        intro hya
        exact h.1 (by rw [hya, ← hk]; exact List.mem_map_of_mem hxl)
      have ih' := ih h.2 hxl
      rw [if_neg hy]
      omega

theorem sum_put_le {l : List α} (h : (l.map key).Nodup) (a : α) :
    ((put key l a).map f).sum ≤ (l.map f).sum + f a := by
  by_cases ha : key a ∈ l.map key
  · obtain ⟨x, hx, hk⟩ := List.mem_map.mp ha
    have hs := sum_replace key f h hx hk
    rw [put_old key ha]
    omega
  · rw [put_new key ha]
    simp

theorem sum_putAll_le {l : List α} (h : (l.map key).Nodup) (as : List α) :
    ((putAll key l as).map f).sum ≤ (l.map f).sum + (as.map f).sum := by
  induction as generalizing l with
  | nil => exact Nat.le_refl _
  | cons a as ih =>
    have h1 := ih (nodup_put key h a)
    have h2 := sum_put_le key f h a
    rw [putAll_cons, List.map_cons, List.sum_cons]
    omega

/-- the size is reached only if every key was new -/
theorem nodup_of_sum_putAll (hf : ∀ a, 0 < f a) {l : List α} (h : (l.map key).Nodup)
    (as : List α) (hs : (l.map f).sum + (as.map f).sum ≤ ((putAll key l as).map f).sum) :
    ((l ++ as).map key).Nodup := by
  induction as generalizing l with
  | nil => rw [List.append_nil]; exact h
  | cons a as ih =>
    have h1 := sum_putAll_le key f (nodup_put key h a) as
    rw [putAll_cons, List.map_cons, List.sum_cons] at hs
    by_cases ha : key a ∈ l.map key
    · obtain ⟨x, hx, hk⟩ := List.mem_map.mp ha
      have hr := sum_replace key f h hx hk
      have hp := hf x
      rw [put_old key ha] at h1 hs
      omega
    · rw [put_new key ha] at hs
      have h2 := ih (l := l ++ [a]) (by rw [← put_new key ha]; exact nodup_put key h a)
        (by simpa [Nat.add_assoc] using hs)
      rw [List.append_assoc] at h2
      exact h2

end

/-! ## marks behind some elements -/

section
variable (p : α → Bool) (z : α)

/-- every element with `p` has the mark `z` behind it -/
def trail (l : List α) : List α := l.flatMap fun a => if p a then [a, z] else [a]

/-- the first element with `p` is the mark, or the mark is the next element -/
def MarkFirst : List α → Prop
  | [] => True
  | a :: l => if p a then a = z ∨ ∃ l', l = z :: l' else MarkFirst l

theorem trail_cons_of_pos {a : α} (h : p a = true) (l : List α) :
    trail p z (a :: l) = a :: z :: trail p z l := by
  rw [trail, List.flatMap_cons, if_pos h]
  rfl

theorem trail_cons_of_neg {a : α} (h : ¬ p a = true) (l : List α) :
    trail p z (a :: l) = a :: trail p z l := by
  rw [trail, List.flatMap_cons, if_neg h]
  rfl

theorem markFirst_map {q : β → Bool} {y : β} {f : β → α} {l : List β} (hp : ∀ b, p (f b) = q b)
    (hz : ∀ b ∈ l, f b = z ↔ b = y) : MarkFirst p z (l.map f) ↔ MarkFirst q y l := by
  induction l with
  | nil => exact Iff.rfl
  | cons b l ih =>
    have hl : ∀ c ∈ l, f c = z ↔ c = y := fun c hc => hz c (List.mem_cons_of_mem _ hc)
    rw [List.map_cons, MarkFirst, MarkFirst, hp]
    by_cases hb : q b = true
    · rw [if_pos hb, if_pos hb, hz b (List.mem_cons_self ..)]
      refine or_congr_right ?_
      cases l with
      | nil => simp
      | cons c l =>
        have hc := hl c (List.mem_cons_self ..)
        simp only [List.map_cons, List.cons.injEq, exists_and_left, exists_eq', and_true]
        exact hc
    · rw [if_neg hb, if_neg hb]
      exact ih hl

/-- once the mark is stored, the marks of later elements change nothing -/
theorem putAll_trail_of_mem {s l : List α} (hz : z ∈ s) (hn : ((s ++ l).map key).Nodup) :
    putAll key s (trail p z l) = s ++ l := by
  induction l generalizing s with
  | nil => exact (List.append_nil s).symm
  | cons a l ih =>
    have hsplit : s ++ a :: l = (s ++ [a]) ++ l := by rw [List.append_assoc]; rfl
    rw [hsplit] at hn ⊢
    have hsa : ((s ++ [a]).map key).Nodup := by
      rw [List.map_append] at hn
      exact (List.nodup_append.mp hn).1
    have hput : put key s a = s ++ [a] := by
      have h := putAll_of_nodup key s [a] hsa
      exact h
    have hz' : z ∈ s ++ [a] := List.mem_append_left _ hz
    by_cases ha : p a = true
    · rw [trail_cons_of_pos p z ha, putAll_cons, putAll_cons, hput, put_mem key hsa hz']
      exact ih hz' hn
    · rw [trail_cons_of_neg p z ha, putAll_cons, hput]
      exact ih hz' hn

/-- no other element is stored under the key of the mark -/
theorem eq_mark_of_mem (hk : ∀ a, key a = key z → p a = true) {s l : List α}
    (hs : ∀ a ∈ s, key a = key z → a = z) :
    ∀ a ∈ putAll key s (trail p z l), key a = key z → a = z := by
  induction l generalizing s with
  | nil => exact hs
  | cons b l ih =>
    by_cases hb : p b = true
    · rw [trail_cons_of_pos p z hb, putAll_cons, putAll_cons]
      refine ih fun a ha hka => ?_
      rcases mem_put key ha with rfl | ⟨_, hne⟩
      · rfl
      · exact absurd hka hne
    · rw [trail_cons_of_neg p z hb, putAll_cons]
      refine ih fun a ha hka => ?_
      rcases mem_put key ha with rfl | ⟨ha, _⟩
      · exact absurd (hk a hka) hb
      · exact hs a ha hka

/-- the first element that has a mark behind it -/
theorem putAll_trail_pos (hk : ∀ a, key a = key z → p a = true) {s l : List α} {a : α}
    (hn : ((s ++ a :: l).map key).Nodup) (hs : ∀ b ∈ s, ¬ p b = true) (ha : p a = true) :
    putAll key s (trail p z (a :: l)) = s ++ a :: l ↔ a = z ∨ ∃ l', l = z :: l' := by
  have hsz : ∀ b ∈ s, key b ≠ key z := fun b hb hkb => hs b hb (hk b hkb)
  have hsplit : s ++ a :: l = (s ++ [a]) ++ l := by rw [List.append_assoc]; rfl
  have hsa : ((s ++ [a]).map key).Nodup := by
    rw [hsplit, List.map_append] at hn
    exact (List.nodup_append.mp hn).1
  have hput : put key s a = s ++ [a] := putAll_of_nodup key s [a] hsa
  have hmark : putAll key s (trail p z (a :: l)) = s ++ a :: l →
      ∀ b ∈ s ++ a :: l, key b = key z → b = z := by
    intro h
    rw [← h]
    exact eq_mark_of_mem key p z hk fun b hb hkb => absurd hkb (hsz b hb)
  by_cases haz : key a = key z
  · constructor
    · intro h
      exact Or.inl (hmark h a (by simp) haz)
    · intro h
      have hza : a = z := by
        rcases h with h | ⟨l', rfl⟩
        · exact h
        · rw [List.map_append, List.nodup_append] at hn
          simp only [List.map_cons, List.nodup_cons, List.mem_cons, haz, true_or,
            not_true_eq_false, false_and, and_false] at hn
      subst hza
      rw [trail_cons_of_pos p a ha, putAll_cons, putAll_cons, hput, put_mem key hsa (by simp), hsplit]
      rw [hsplit] at hn
      exact putAll_trail_of_mem key p a (by simp) hn
  · have hsaz : ((s ++ [a, z]).map key).Nodup := by
      have hnew : key z ∉ (s ++ [a]).map key := by
        intro h
        obtain ⟨b, hb, hkb⟩ := List.mem_map.mp h
        rcases List.mem_append.mp hb with hb | hb
        · exact hsz b hb hkb
        · rw [List.mem_singleton.mp hb] at hkb
          exact haz hkb
      rw [show s ++ [a, z] = (s ++ [a]) ++ [z] by rw [List.append_assoc]; rfl, List.map_append,
        List.map_singleton, ← List.concat_eq_append]
      exact hsa.concat hnew
    have hstart : putAll key s (trail p z (a :: l)) = putAll key (s ++ [a, z]) (trail p z l) := by
      rw [trail_cons_of_pos p z ha, show a :: z :: trail p z l = [a, z] ++ trail p z l from rfl,
        putAll_append, putAll_of_nodup key s [a, z] hsaz]
    constructor
    · intro h
      have hz := hmark h
      obtain ⟨ks, hks⟩ := map_key_putAll key (s ++ [a, z]) (trail p z l)
      rw [← hstart, h, List.map_append, List.map_append, List.append_assoc] at hks
      have hl : (a :: l).map key = [a, z].map key ++ ks := List.append_cancel_left hks
      right
      cases l with
      | nil => exact absurd hl (by simp)
      | cons b l =>
        simp only [List.map_cons, List.map_nil, List.cons_append, List.nil_append,
          List.cons.injEq] at hl
        exact ⟨l, by rw [hz b (by simp) hl.2.1]⟩
    · intro h
      rcases h with rfl | ⟨l', rfl⟩
      · exact absurd rfl haz
      have hpz : p z = true := hk z rfl
      have hmem : z ∈ s ++ [a, z] := by simp
      rw [hstart, trail_cons_of_pos p z hpz, putAll_cons, putAll_cons, put_mem key hsaz hmem,
        put_mem key hsaz hmem]
      have hs' : s ++ a :: z :: l' = (s ++ [a, z]) ++ l' := by rw [List.append_assoc]; rfl
      rw [hs'] at hn ⊢
      exact putAll_trail_of_mem key p z hmem hn

/-- **Storing a list with marks gives the list back** iff the mark comes first. -/
theorem putAll_trail_iff (hk : ∀ a, key a = key z → p a = true) {s l : List α}
    (hn : ((s ++ l).map key).Nodup) (hs : ∀ b ∈ s, ¬ p b = true) :
    putAll key s (trail p z l) = s ++ l ↔ MarkFirst p z l := by
  induction l generalizing s with
  | nil => exact ⟨fun _ => trivial, fun _ => (List.append_nil s).symm⟩
  | cons a l ih =>
    rw [MarkFirst]
    by_cases ha : p a = true
    · rw [if_pos ha]
      exact putAll_trail_pos key p z hk hn hs ha
    · have hsplit : s ++ a :: l = (s ++ [a]) ++ l := by rw [List.append_assoc]; rfl
      rw [hsplit] at hn
      have hput : put key s a = s ++ [a] := by
        rw [List.map_append] at hn
        exact putAll_of_nodup key s [a] (List.nodup_append.mp hn).1
      rw [if_neg ha, trail_cons_of_neg p z ha, putAll_cons, hput, hsplit]
      refine ih hn fun b hb => ?_
      rcases List.mem_append.mp hb with hb | hb
      · exact hs b hb
      · rw [List.mem_singleton.mp hb]
        exact ha

end
end GoLang
