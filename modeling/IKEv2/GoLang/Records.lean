import Mathlib.Data.List.Forall2
import IKEv2.GoLang.Loop
import IKEv2.GoLang.BigEndian

/-!
# Loops that take records off the front of a slice

`peelLoop round` is the decoder loop `for len(b) > 0 { .. b = b[n:] }`: each round reads one record
at the front of `b`, moves `b` past it and changes the other variables.  If a round accepts exactly
the slices that begin with the octets `enc a` of a record `a` that `step` allows, then the loop
accepts exactly the concatenations of such records (`peelLoop_iff`), in order and with nothing
before, between or behind them.

`step acc a rest sp acc'` may look at the elements behind the record, both those that are still in
the slice (`rest`) and those up to its capacity (`sp`); `Peel` chains the steps along a list of
records.  `emitAll` is the encoder's counterpart, a loop that appends the octets of each element.

`lenRound` is the round of a loop whose records carry their length in octets 2 and 3 (`LenRec`):
`lenRound_reads` says that it reads just these, `lenRecs_unique` that no octets split into such
records in two ways.  When the body accepts the `good` records and stops the program on the `bad`
ones, `lenLoop_ok_iff` and `lenLoop_returns_iff` say how the whole loop ends.
-/

set_option linter.unusedVariables false

namespace GoLang
variable {ε α β : Type}

def peelLoop (round : Slice ε × β → Outcome (Slice ε × β)) (s : Slice ε × β) :
    Outcome (Slice ε × β) :=
  whileLoop (fun s => s.1.len) (fun s => decide (0 < s.1.len)) round s

inductive Peel (enc : α → List ε) (step : β → α → List ε → List ε → β → Prop) (sp : List ε) :
    β → List α → β → Prop
  | nil (acc : β) : Peel enc step sp acc [] acc
  | cons {acc acc' acc'' : β} {a : α} {as : List α} (h : step acc a (as.flatMap enc) sp acc')
      (t : Peel enc step sp acc' as acc'') : Peel enc step sp acc (a :: as) acc''

/-- the round accepts a slice iff it begins with an allowed record -/
def Reads (round : Slice ε × β → Outcome (Slice ε × β)) (enc : α → List ε)
    (step : β → α → List ε → List ε → β → Prop) : Prop :=
  ∀ (d sp : List ε) (acc : β) (s' : Slice ε × β), d ≠ [] →
    (round (⟨d, sp⟩, acc) = .ok s' ↔
      ∃ a rest acc', d = enc a ++ rest ∧ step acc a rest sp acc' ∧ s' = (⟨rest, sp⟩, acc'))

section
variable {round : Slice ε × β → Outcome (Slice ε × β)} {enc : α → List ε}
  {step : β → α → List ε → List ε → β → Prop} (hr : Reads round enc step)
  (hne : ∀ acc a rest sp acc', step acc a rest sp acc' → enc a ≠ [])
include hr hne

theorem peel_decreasing :
    Decreasing (fun s : Slice ε × β => s.1.len) (fun s => decide (0 < s.1.len)) round := by
  intro s s' hc hb
  obtain ⟨⟨d, sp⟩, acc⟩ := s
  have hpos : 0 < d.length := of_decide_eq_true hc
  obtain ⟨a, rest, acc', hd, hs, rfl⟩ :=
    (hr d sp acc s' (List.length_pos_iff.mp hpos)).mp hb
  have hp : 0 < (enc a).length := List.length_pos_iff.mpr (hne _ _ _ _ _ hs)
  show rest.length < d.length
  rw [hd, List.length_append]
  omega

theorem peelLoop_nil (sp : List ε) (acc : β) :
    peelLoop round (⟨[], sp⟩, acc) = .ok (⟨[], sp⟩, acc) :=
  whileLoop_done (peel_decreasing hr hne) rfl

theorem peelLoop_cons (s : Slice ε × β) (h : 0 < s.1.len) :
    peelLoop round s = round s >>= peelLoop round :=
  whileLoop_step (peel_decreasing hr hne) (decide_eq_true h)

theorem peelLoop_of_peel {sp : List ε} {acc acc' : β} {as : List α}
    (h : Peel enc step sp acc as acc') :
    peelLoop round (⟨as.flatMap enc, sp⟩, acc) = .ok (⟨[], sp⟩, acc') := by
  induction h with
  | nil acc => exact peelLoop_nil hr hne sp acc
  | @cons acc acc1 acc2 a as hs _ ih =>
    have hea := hne _ _ _ _ _ hs
    have hd : (a :: as).flatMap enc = enc a ++ as.flatMap enc := List.flatMap_cons
    have hdne : (a :: as).flatMap enc ≠ [] := by rw [hd]; simp [hea]
    have hstep := (hr ((a :: as).flatMap enc) sp acc _ hdne).mpr
      ⟨a, as.flatMap enc, acc1, hd, hs, rfl⟩
    rw [peelLoop_cons hr hne _ (List.length_pos_iff.mpr hdne), hstep]
    exact ih

/-- **The loop accepts exactly the concatenations of the records its round accepts.** -/
theorem peelLoop_iff {d sp : List ε} {acc : β} {r : Slice ε × β} :
    peelLoop round (⟨d, sp⟩, acc) = .ok r ↔
      ∃ as acc', Peel enc step sp acc as acc' ∧ d = as.flatMap enc ∧ r = (⟨[], sp⟩, acc') := by
  constructor
  · intro h
    refine whileLoop_induct (peel_decreasing hr hne)
      (motive := fun s r => ∃ as acc', Peel enc step s.1.spare s.2 as acc' ∧
        s.1.data = as.flatMap enc ∧ r = (⟨[], s.1.spare⟩, acc')) ?_ ?_ (⟨d, sp⟩, acc) r h
    · intro s hc
      have h0 : s.1.data = [] := by
        have : ¬ 0 < s.1.data.length := of_decide_eq_false hc
        exact List.length_eq_zero_iff.mp (by omega)
      refine ⟨[], s.2, .nil _, h0, ?_⟩
      obtain ⟨⟨d, sp⟩, acc⟩ := s
      have h0' : d = [] := h0
      rw [h0']
    · intro s s' r hc hb _ ih
      obtain ⟨⟨d, sp⟩, acc⟩ := s
      have hpos : 0 < d.length := of_decide_eq_true hc
      obtain ⟨a, rest, acc1, hd, hs, rfl⟩ :=
        (hr d sp acc s' (List.length_pos_iff.mp hpos)).mp hb
      obtain ⟨as, acc2, hp, hrest, hres⟩ := ih
      have hrest' : rest = as.flatMap enc := hrest
      refine ⟨a :: as, acc2, .cons ?_ hp, ?_, hres⟩
      · rw [← hrest']; exact hs
      · rw [List.flatMap_cons, ← hrest']; exact hd
  · rintro ⟨as, acc', hp, rfl, rfl⟩
    exact peelLoop_of_peel hr hne hp

end

/-! ## loops that only collect -/

/-- each record is appended to a list; `ok` is what the round asks of it -/
def Collect (ok : α → Prop) (acc : List α) (a : α) (_ _ : List ε) (acc' : List α) : Prop :=
  ok a ∧ acc' = acc ++ [a]

theorem peel_collect_iff {enc : α → List ε} {ok : α → Prop} {sp : List ε} {acc acc' as : List α} :
    Peel enc (Collect ok) sp acc as acc' ↔ (∀ a ∈ as, ok a) ∧ acc' = acc ++ as := by
  constructor
  · intro h
    induction h with
    | nil acc => exact ⟨by simp, by simp⟩
    | cons hs _ ih =>
      obtain ⟨ho, rfl⟩ := hs
      refine ⟨?_, ?_⟩
      · exact List.forall_mem_cons.mpr ⟨ho, ih.1⟩
      · rw [ih.2, List.append_assoc]
        rfl
  · rintro ⟨ho, rfl⟩
    induction as generalizing acc with
    | nil => rw [List.append_nil]; exact .nil acc
    | cons a as ih =>
      refine .cons ⟨ho a (List.mem_cons_self ..), rfl⟩ ?_
      have h := @ih (acc ++ [a]) (fun x hx => ho x (List.mem_cons_of_mem _ hx))
      rw [List.append_assoc] at h
      exact h

/-! ## records with a 16-bit length field -/

/-- the number in octets 2 and 3 -/
def lenField (d : List UInt8) : Nat := octNat ((d.drop 2).take 2)

/-- a record of at least `h` octets whose octets 2 and 3 hold its length -/
def LenRec (h : Nat) (a : List UInt8) : Prop := h ≤ a.length ∧ lenField a = a.length

/-- one round: the length field is checked against the header length `h` and against the data, the
`body` works on the data from this record on, then the data move past the record -/
def lenRound (h : Nat) (short : String) (illegal mismatch : Nat → String)
    (body : β → Slice UInt8 → UInt16 → Outcome β) (s : Slice UInt8 × β) :
    Outcome (Slice UInt8 × β) :=
  if s.1.len < h then fail short
  else do
    let l ← s.1.slice 2 4
    let length ← uint16 l.data
    if length.toNat < h then fail (illegal length.toNat)
    else if s.1.len < length.toNat then fail (mismatch s.1.len)
    else do
      let acc ← body s.2 s.1 length
      let rest ← s.1.sliceFrom length.toNat
      pure (rest, acc)

theorem lenField_lt (d : List UInt8) : lenField d < 65536 := by
  have h := octNat_lt ((d.drop 2).take 2)
  have hl : ((d.drop 2).take 2).length ≤ 2 := List.length_take_le ..
  have hp : 256 ^ ((d.drop 2).take 2).length ≤ 256 ^ 2 := Nat.pow_le_pow_right (by omega) hl
  unfold lenField
  omega

theorem lenField_put (x y : UInt8) (v : UInt16) (r : List UInt8) :
    lenField (x :: y :: (putUint16 v ++ r)) = v.toNat := by
  have hv : v.toNat < 256 ^ 2 := v.toNat_lt
  show octNat ((putUint16 v ++ r).take 2) = v.toNat
  rw [List.take_left' (length_putUint16 v), putUint16, octNat_octets_of_lt hv]

theorem lenField_append {a : List UInt8} (h : 4 ≤ a.length) (r : List UInt8) :
    lenField (a ++ r) = lenField a := by
  unfold lenField
  rw [List.drop_append_of_le_length (by omega),
    List.take_append_of_le_length (by rw [List.length_drop]; omega)]

theorem lenField_of_lenRec {h : Nat} (h4 : 4 ≤ h) {a : List UInt8} (ha : LenRec h a)
    (r : List UInt8) : lenField (a ++ r) = a.length := by
  have hh : h ≤ a.length := ha.1
  rw [lenField_append (by omega), ha.2]

theorem lenRec_take {h : Nat} (h4 : 4 ≤ h) {d : List UInt8} (hL : h ≤ lenField d)
    (hd : lenField d ≤ d.length) : LenRec h (d.take (lenField d)) := by
  have hl : (d.take (lenField d)).length = lenField d := by rw [List.length_take]; omega
  refine ⟨by omega, ?_⟩
  have happ := lenField_append (a := d.take (lenField d)) (by omega) (d.drop (lenField d))
  rw [List.take_append_drop] at happ
  rw [hl, ← happ]

theorem toNat_lenField (d : List UInt8) : (UInt16.ofNat (lenField d)).toNat = lenField d :=
  UInt16.toNat_ofNat_of_lt' (lenField_lt d)

theorem uint16_lenField {d : List UInt8} (h : 4 ≤ d.length) :
    uint16 ((d.take 4).drop 2) = .ok (UInt16.ofNat (lenField d)) := by
  have hl : 2 ≤ ((d.take 4).drop 2).length := by
    rw [List.length_drop, List.length_take]; omega
  have hd : ((d.take 4).drop 2).take 2 = (d.drop 2).take 2 := by
    rw [List.drop_take, List.take_take]
    rfl
  rw [uint16, octUint, if_pos hl, hd]
  rfl

theorem lenRound_eq {h : Nat} (h4 : 4 ≤ h) (short : String) (illegal mismatch : Nat → String)
    (body : β → Slice UInt8 → UInt16 → Outcome β) (d sp : List UInt8) (acc : β) :
    lenRound h short illegal mismatch body (⟨d, sp⟩, acc) =
      if d.length < h then fail short
      else if lenField d < h then fail (illegal (lenField d))
      else if d.length < lenField d then fail (mismatch d.length)
      else (fun acc' => (⟨d.drop (lenField d), sp⟩, acc')) <$>
        body acc ⟨d, sp⟩ (UInt16.ofNat (lenField d)) := by
  unfold lenRound
  by_cases h1 : d.length < h
  · rw [if_pos (show (⟨d, sp⟩ : Slice UInt8).len < h from h1), if_pos h1]
  · rw [if_neg (show ¬ (⟨d, sp⟩ : Slice UInt8).len < h from h1), if_neg h1,
      Slice.slice_data _ (by omega) (show 4 ≤ d.length by omega)]
    simp only [Outcome.ok_bind, uint16_lenField (show 4 ≤ d.length by omega), toNat_lenField,
      Slice.len_mk]
    by_cases h2 : lenField d < h
    · rw [if_pos h2, if_pos h2]
    · rw [if_neg h2, if_neg h2]
      by_cases h3 : d.length < lenField d
      · rw [if_pos h3, if_pos h3]
      · rw [if_neg h3, if_neg h3]
        cases body acc ⟨d, sp⟩ (UInt16.ofNat (lenField d)) with
        | ok acc' =>
          rw [Outcome.ok_bind, Slice.sliceFrom_data _ (show lenField d ≤ d.length by omega)]
          rfl
        | err e => rfl
        | panic p => rfl

theorem lenRec_ne_nil {h : Nat} (h4 : 4 ≤ h) {a : List UInt8} (ha : LenRec h a) : a ≠ [] := by
  rintro rfl
  have hh : h ≤ 0 := ha.1
  omega

section
variable {h : Nat} (h4 : 4 ≤ h)
include h4

/-- the record at the front of a list is determined by it -/
theorem lenRec_append_inj {a b r s : List UInt8} (ha : LenRec h a) (hb : LenRec h b)
    (he : a ++ r = b ++ s) : a = b ∧ r = s := by
  have hl : a.length = b.length := by
    rw [← lenField_of_lenRec h4 ha r, ← lenField_of_lenRec h4 hb s, he]
  exact List.append_inj he hl

/-- octets split into records in at most one way -/
theorem lenRecs_unique {as bs : List (List UInt8)} (ha : ∀ a ∈ as, LenRec h a)
    (hb : ∀ b ∈ bs, LenRec h b) (he : as.flatten = bs.flatten) : as = bs := by
  induction as generalizing bs with
  | nil =>
    cases bs with
    | nil => rfl
    | cons b bs =>
      have hn : b = [] := (List.append_eq_nil_iff.mp he.symm).1
      exact absurd hn (lenRec_ne_nil h4 (hb b (List.mem_cons_self ..)))
  | cons a as ih =>
    cases bs with
    | nil =>
      have hn : a = [] := (List.append_eq_nil_iff.mp he).1
      exact absurd hn (lenRec_ne_nil h4 (ha a (List.mem_cons_self ..)))
    | cons b bs =>
      have he' : a ++ as.flatten = b ++ bs.flatten := he
      obtain ⟨rfl, htl⟩ := lenRec_append_inj h4 (ha a (List.mem_cons_self ..))
        (hb b (List.mem_cons_self ..)) he'
      rw [ih (fun x hx => ha x (List.mem_cons_of_mem _ hx))
        (fun x hx => hb x (List.mem_cons_of_mem _ hx)) htl]

/-- induction over a list as a loop over records sees it -/
theorem lenRec_induct {P : List UInt8 → Prop} (nil : P [])
    (stop : ∀ d, d ≠ [] → (∀ a r, LenRec h a → d ≠ a ++ r) → P d)
    (record : ∀ a r, LenRec h a → P r → P (a ++ r)) (d : List UInt8) : P d := by
  induction hn : d.length using Nat.strong_induction_on generalizing d with
  | _ n ih =>
    by_cases h0 : d = []
    · rw [h0]; exact nil
    by_cases hrec : ∃ a r, LenRec h a ∧ d = a ++ r
    · obtain ⟨a, r, ha, rfl⟩ := hrec
      have hpos := List.length_pos_iff.mpr (lenRec_ne_nil h4 ha)
      rw [List.length_append] at hn
      exact record a r ha (ih r.length (by omega) r rfl)
    · exact stop d h0 fun a r ha he => hrec ⟨a, r, ha, he⟩

section
variable (short : String) (illegal mismatch : Nat → String)
  (body : β → Slice UInt8 → UInt16 → Outcome β)

theorem lenRound_record {a : List UInt8} (ha : LenRec h a) (r sp : List UInt8) (acc : β) :
    lenRound h short illegal mismatch body (⟨a ++ r, sp⟩, acc) =
      (fun acc' => (⟨r, sp⟩, acc')) <$> body acc ⟨a ++ r, sp⟩ (UInt16.ofNat a.length) := by
  have hh : h ≤ a.length := ha.1
  rw [lenRound_eq h4, lenField_of_lenRec h4 ha, List.length_append]
  rw [if_neg (by omega), if_neg (by omega), if_neg (by omega), List.drop_left]

/-- a list that does not begin with a record is refused before the body runs -/
theorem lenRound_refuses {d : List UInt8} (hn : ∀ a r, LenRec h a → d ≠ a ++ r)
    (sp : List UInt8) (acc : β) :
    ∃ e, lenRound h short illegal mismatch body (⟨d, sp⟩, acc) = .err e := by
  rw [lenRound_eq h4]
  by_cases h1 : d.length < h
  · exact ⟨_, if_pos h1⟩
  rw [if_neg h1]
  by_cases h2 : lenField d < h
  · exact ⟨_, if_pos h2⟩
  rw [if_neg h2]
  by_cases h3 : d.length < lenField d
  · exact ⟨_, if_pos h3⟩
  · exact absurd (List.take_append_drop (lenField d) d).symm
      (hn _ _ (lenRec_take h4 (by omega) (by omega)))

/-- the round reads one record -/
theorem lenRound_reads :
    Reads (lenRound h short illegal mismatch body) id (fun acc a rest sp acc' =>
      LenRec h a ∧ body acc ⟨a ++ rest, sp⟩ (UInt16.ofNat a.length) = .ok acc') := by
  intro d sp acc s' _
  constructor
  · intro hr
    by_cases hrec : ∃ a r, LenRec h a ∧ d = a ++ r
    · obtain ⟨a, r, ha, rfl⟩ := hrec
      rw [lenRound_record h4 short illegal mismatch body ha] at hr
      obtain ⟨acc', hb, rfl⟩ := Outcome.map_eq_ok.mp hr
      exact ⟨a, r, acc', rfl, ⟨ha, hb⟩, rfl⟩
    · obtain ⟨e, he⟩ := lenRound_refuses h4 short illegal mismatch body
        (fun a r ha hd => hrec ⟨a, r, ha, hd⟩) sp acc
      rw [he] at hr
      exact absurd hr (by simp)
  · intro ⟨a, rest, acc', hd, ⟨ha, hb⟩, hs⟩
    rw [hd, hs, id_eq, lenRound_record h4 short illegal mismatch body ha, hb]
    rfl

theorem lenStep_ne (acc : β) (a rest sp : List UInt8) (acc' : β)
    (hs : LenRec h a ∧ body acc ⟨a ++ rest, sp⟩ (UInt16.ofNat a.length) = .ok acc') :
    id a ≠ [] := lenRec_ne_nil h4 hs.1

theorem lenLoop_nil (sp : List UInt8) (acc : β) :
    peelLoop (lenRound h short illegal mismatch body) (⟨[], sp⟩, acc) = .ok (⟨[], sp⟩, acc) :=
  peelLoop_nil (lenRound_reads h4 short illegal mismatch body) (lenStep_ne h4 body) sp acc

theorem lenLoop_record {a : List UInt8} (ha : LenRec h a) (r sp : List UInt8) (acc : β) :
    peelLoop (lenRound h short illegal mismatch body) (⟨a ++ r, sp⟩, acc) =
      body acc ⟨a ++ r, sp⟩ (UInt16.ofNat a.length) >>= fun acc' =>
        peelLoop (lenRound h short illegal mismatch body) (⟨r, sp⟩, acc') := by
  have hpos : 0 < (⟨a ++ r, sp⟩ : Slice UInt8).len := by
    rw [Slice.len_mk, List.length_append]
    exact Nat.add_pos_left (List.length_pos_iff.mpr (lenRec_ne_nil h4 ha)) _
  rw [peelLoop_cons (lenRound_reads h4 short illegal mismatch body) (lenStep_ne h4 body) (_, acc)
      hpos,
    lenRound_record h4 short illegal mismatch body ha, bind_map_left]

theorem lenLoop_refuses {d : List UInt8} (h0 : d ≠ []) (hn : ∀ a r, LenRec h a → d ≠ a ++ r)
    (sp : List UInt8) (acc : β) :
    ∃ e, peelLoop (lenRound h short illegal mismatch body) (⟨d, sp⟩, acc) = .err e := by
  obtain ⟨e, he⟩ := lenRound_refuses h4 short illegal mismatch body hn sp acc
  refine ⟨e, ?_⟩
  rw [peelLoop_cons (lenRound_reads h4 short illegal mismatch body) (lenStep_ne h4 body) _
    (List.length_pos_iff.mpr h0), he]
  rfl

end

end

/-! ## how a loop over such records ends -/

/-- records one after the other, each `good` in front of what is behind it -/
inductive LenRun (h : Nat) (good : List UInt8 → List UInt8 → Prop) : List UInt8 → Prop
  | nil : LenRun h good []
  | cons {a r : List UInt8} (ha : LenRec h a) (hg : good a r) (t : LenRun h good r) :
      LenRun h good (a ++ r)

/-- a `bad` record, with good ones before it and anything behind it -/
inductive LenHits (h : Nat) (good bad : List UInt8 → List UInt8 → Prop) : List UInt8 → Prop
  | here {a r : List UInt8} (ha : LenRec h a) (hb : bad a r) : LenHits h good bad (a ++ r)
  | later {a r : List UInt8} (ha : LenRec h a) (hg : good a r) (t : LenHits h good bad r) :
      LenHits h good bad (a ++ r)

section
variable {h : Nat} (h4 : 4 ≤ h) {good bad : List UInt8 → List UInt8 → Prop}
include h4

theorem lenRun_append {a r : List UInt8} (ha : LenRec h a) :
    LenRun h good (a ++ r) ↔ good a r ∧ LenRun h good r := by
  constructor
  · intro hr
    generalize hd : a ++ r = d at hr
    cases hr with
    | nil => exact absurd (List.append_eq_nil_iff.mp hd).1 (lenRec_ne_nil h4 ha)
    | cons hb hg t =>
      obtain ⟨rfl, rfl⟩ := lenRec_append_inj h4 ha hb hd
      exact ⟨hg, t⟩
  · intro ⟨hg, t⟩
    exact .cons ha hg t

theorem lenHits_append {a r : List UInt8} (ha : LenRec h a) :
    LenHits h good bad (a ++ r) ↔ bad a r ∨ good a r ∧ LenHits h good bad r := by
  constructor
  · intro hr
    generalize hd : a ++ r = d at hr
    cases hr with
    | here hb hbad =>
      obtain ⟨rfl, rfl⟩ := lenRec_append_inj h4 ha hb hd
      exact .inl hbad
    | later hb hg t =>
      obtain ⟨rfl, rfl⟩ := lenRec_append_inj h4 ha hb hd
      exact .inr ⟨hg, t⟩
  · intro hr
    rcases hr with hbad | ⟨hg, t⟩
    · exact .here ha hbad
    · exact .later ha hg t

section
variable (short : String) (illegal mismatch : Nat → String)
  {body : β → Slice UInt8 → UInt16 → Outcome β}
  (hgood : ∀ acc a r sp, LenRec h a →
    ((∃ acc', body acc ⟨a ++ r, sp⟩ (UInt16.ofNat a.length) = .ok acc') ↔ good a r))
include hgood

/-- **A loop over records accepts exactly the runs of good records.** -/
theorem lenLoop_ok_iff (d sp : List UInt8) (acc : β) :
    (∃ s, peelLoop (lenRound h short illegal mismatch body) (⟨d, sp⟩, acc) = .ok s) ↔
      LenRun h good d := by
  induction d using lenRec_induct h4 generalizing acc with
  | nil => exact ⟨fun _ => .nil, fun _ => ⟨_, lenLoop_nil h4 short illegal mismatch body sp acc⟩⟩
  | stop d h0 hn =>
    obtain ⟨e, he⟩ := lenLoop_refuses h4 short illegal mismatch body h0 hn sp acc
    rw [he]
    refine ⟨fun hs => absurd hs (by simp), fun hrun => ?_⟩
    cases hrun with
    | nil => exact absurd rfl h0
    | cons ha _ _ => exact absurd rfl (hn _ _ ha)
  | record a r ha ih =>
    rw [lenLoop_record h4 short illegal mismatch body ha, lenRun_append h4 ha,
      ← hgood acc a r sp ha]
    cases body acc ⟨a ++ r, sp⟩ (UInt16.ofNat a.length) with
    | ok acc' => exact (ih acc').trans (iff_and_self.mpr fun _ => ⟨acc', rfl⟩)
    | err e => exact ⟨fun hs => absurd hs (by simp), fun hs => absurd hs.1 (by simp)⟩
    | panic p => exact ⟨fun hs => absurd hs (by simp), fun hs => absurd hs.1 (by simp)⟩

/-- **A loop over records returns unless it comes to a bad record.** -/
theorem lenLoop_returns_iff
    (hbad : ∀ acc a r sp, LenRec h a →
      ((body acc ⟨a ++ r, sp⟩ (UInt16.ofNat a.length)).returns ↔ ¬ bad a r))
    (d sp : List UInt8) (acc : β) :
    (peelLoop (lenRound h short illegal mismatch body) (⟨d, sp⟩, acc)).returns ↔
      ¬ LenHits h good bad d := by
  have hstop : ∀ d, (∀ a r, LenRec h a → d ≠ a ++ r) → ¬ LenHits h good bad d := by
    intro d hn hh
    cases hh with
    | here ha _ => exact hn _ _ ha rfl
    | later ha _ _ => exact hn _ _ ha rfl
  induction d using lenRec_induct h4 generalizing acc with
  | nil =>
    rw [lenLoop_nil h4 short illegal mismatch body sp acc]
    refine iff_of_true trivial (hstop [] fun a r ha he => ?_)
    exact lenRec_ne_nil h4 ha (List.append_eq_nil_iff.mp he.symm).1
  | stop d h0 hn =>
    obtain ⟨e, he⟩ := lenLoop_refuses h4 short illegal mismatch body h0 hn sp acc
    rw [he]
    exact iff_of_true trivial (hstop d hn)
  | record a r ha ih =>
    rw [lenLoop_record h4 short illegal mismatch body ha, lenHits_append h4 ha, not_or, not_and,
      ← hbad acc a r sp ha, ← hgood acc a r sp ha]
    cases body acc ⟨a ++ r, sp⟩ (UInt16.ofNat a.length) with
    | ok acc' => exact (ih acc').trans ⟨fun h1 => ⟨trivial, fun _ => h1⟩, fun h1 => h1.2 ⟨_, rfl⟩⟩
    | err e => exact iff_of_true trivial ⟨trivial, fun hs => absurd hs (by simp)⟩
    | panic p => exact ⟨fun hf => hf.elim, fun hf => hf.1.elim⟩

end

end

/-! ## loops that emit -/

/-- the pieces `f a` one after the other; the first failure ends the loop -/
def emitAll (f : α → Outcome (List ε)) : List α → Outcome (List ε)
  | [] => .ok []
  | a :: as => do
    let piece ← f a
    let rest ← emitAll f as
    pure (piece ++ rest)

theorem emitAll_cons (f : α → Outcome (List ε)) (a : α) (as : List α) :
    emitAll f (a :: as) = (do
      let piece ← f a
      let rest ← emitAll f as
      pure (piece ++ rest)) := rfl

theorem emitAll_map {β : Type} (f : α → Outcome (List ε)) (g : β → α) (bs : List β) :
    emitAll f (bs.map g) = emitAll (fun b => f (g b)) bs := by
  induction bs with
  | nil => rfl
  | cons b bs ih => rw [List.map_cons, emitAll_cons, emitAll_cons, ih]

theorem emitAll_ok {f : α → Outcome (List ε)} {g : α → List ε} {as : List α}
    (h : ∀ a ∈ as, f a = .ok (g a)) : emitAll f as = .ok (as.flatMap g) := by
  induction as with
  | nil => rfl
  | cons a as ih =>
    rw [emitAll_cons, h a (List.mem_cons_self ..), ih fun b hb => h b (List.mem_cons_of_mem _ hb)]
    rfl

theorem emitAll_mem {f : α → Outcome (List ε)} {as : List α} {d : List ε}
    (h : emitAll f as = .ok d) {a : α} (ha : a ∈ as) : ∃ x, f a = .ok x := by
  induction as generalizing d with
  | nil => exact absurd ha (by simp)
  | cons b as ih =>
    obtain ⟨x, hx, h⟩ := Outcome.bind_eq_ok.mp h
    obtain ⟨y, hy, _⟩ := Outcome.bind_eq_ok.mp h
    rcases List.mem_cons.mp ha with rfl | ha
    · exact ⟨x, hx⟩
    · exact ih hy ha

theorem emitAll_returns {f : α → Outcome (List ε)} {as : List α} (h : ∀ a ∈ as, (f a).returns) :
    (emitAll f as).returns := by
  induction as with
  | nil => trivial
  | cons a as ih =>
    rw [emitAll_cons]
    refine Outcome.returns_bind.mpr ⟨h a (List.mem_cons_self ..), fun piece _ => ?_⟩
    refine Outcome.returns_bind.mpr ⟨ih fun b hb => h b (List.mem_cons_of_mem _ hb), ?_⟩
    exact fun _ _ => trivial

/-- without errors no piece is left out, so that the loop returns only if every piece does -/
theorem emitAll_returns_iff {f : α → Outcome (List ε)} (hf : ∀ a e, f a ≠ .err e) {as : List α} :
    (emitAll f as).returns ↔ ∀ a ∈ as, (f a).returns := by
  refine ⟨fun h => ?_, emitAll_returns⟩
  induction as with
  | nil => exact fun a ha => absurd ha (by simp)
  | cons b as ih =>
    rw [emitAll_cons] at h
    obtain ⟨hb, hrest⟩ := Outcome.returns_bind.mp h
    cases hfb : f b with
    | err e => exact absurd hfb (hf b e)
    | panic p => exact absurd hb (by rw [hfb]; exact id)
    | ok x =>
      intro a ha
      rcases List.mem_cons.mp ha with rfl | ha
      · exact hb
      · exact ih (Outcome.returns_bind.mp (hrest x hfb)).1 a ha

/-- the pieces one after the other; `f` is told which element is the last one -/
def emitLast (f : Bool → α → Outcome (List ε)) : List α → Outcome (List ε)
  | [] => .ok []
  | a :: as => do
    let piece ← f as.isEmpty a
    let rest ← emitLast f as
    pure (piece ++ rest)

/-- each element with a mark on the last one -/
def markLast (g : Bool → α → List ε) : List α → List (List ε)
  | [] => []
  | a :: as => g as.isEmpty a :: markLast g as

theorem emitLast_ok {f : Bool → α → Outcome (List ε)} {g : Bool → α → List ε} {as : List α}
    (h : ∀ a ∈ as, ∀ last, f last a = .ok (g last a)) :
    emitLast f as = .ok (markLast g as).flatten := by
  induction as with
  | nil => rfl
  | cons a as ih =>
    show (f as.isEmpty a >>= fun piece => emitLast f as >>= fun rest => pure (piece ++ rest)) = _
    rw [h a (List.mem_cons_self ..), ih fun b hb => h b (List.mem_cons_of_mem _ hb)]
    rfl

theorem emitLast_returns {f : Bool → α → Outcome (List ε)} {as : List α}
    (h : ∀ last a, (f last a).returns) : (emitLast f as).returns := by
  induction as with
  | nil => trivial
  | cons a as ih =>
    refine Outcome.returns_bind.mpr ⟨h _ a, fun piece _ => ?_⟩
    exact Outcome.returns_bind.mpr ⟨ih, fun _ _ => trivial⟩

/-- a loop that emits without failing emitted one piece for each element -/
theorem emitLast_pieces {f : Bool → α → Outcome (List ε)} {R : α → List ε → Prop} {as : List α}
    {d : List ε} (hf : ∀ a ∈ as, ∀ last x, f last a = .ok x → R a x)
    (h : emitLast f as = .ok d) : ∃ xs, d = xs.flatten ∧ List.Forall₂ R as xs := by
  induction as generalizing d with
  | nil =>
    injection h with h
    exact ⟨[], h.symm, .nil⟩
  | cons a as ih =>
    obtain ⟨x, hx, h⟩ := Outcome.bind_eq_ok.mp h
    obtain ⟨y, hy, h⟩ := Outcome.bind_eq_ok.mp h
    injection h with h
    obtain ⟨xs, hd, hxs⟩ := ih (fun b hb => hf b (List.mem_cons_of_mem _ hb)) hy
    exact ⟨x :: xs, by rw [← h, hd]; rfl, .cons (hf a (List.mem_cons_self ..) _ x hx) hxs⟩

theorem emitLast_mem {f : Bool → α → Outcome (List ε)} {as : List α} {d : List ε}
    (h : emitLast f as = .ok d) {a : α} (ha : a ∈ as) : ∃ last x, f last a = .ok x := by
  induction as generalizing d with
  | nil => exact absurd ha (by simp)
  | cons b as ih =>
    obtain ⟨x, hx, h⟩ := Outcome.bind_eq_ok.mp h
    obtain ⟨y, hy, _⟩ := Outcome.bind_eq_ok.mp h
    rcases List.mem_cons.mp ha with rfl | ha
    · exact ⟨_, x, hx⟩
    · exact ih hy ha

/-- what a loop that emits records leaves for a loop that reads them: the elements decide how far it
comes -/
theorem lenLoop_emitted {h : Nat} (h4 : 4 ≤ h) {good bad : List UInt8 → List UInt8 → Prop}
    {f : Bool → α → Outcome (List UInt8)} {G B : α → Prop}
    (hf : ∀ last a x, f last a = .ok x → LenRec h x ∧ ∀ r, (good x r ↔ G a) ∧ (bad x r ↔ B a))
    {as : List α} {d : List UInt8} (hd : emitLast f as = .ok d) :
    (LenRun h good d ↔ ∀ a ∈ as, G a) ∧
    (LenHits h good bad d ↔ ∃ pre a post, as = pre ++ a :: post ∧ B a ∧ ∀ b ∈ pre, G b) := by
  induction as generalizing d with
  | nil =>
    injection hd with hd
    subst hd
    refine ⟨iff_of_true .nil fun a ha => absurd ha (by simp), iff_of_false ?_ ?_⟩
    · intro hr
      generalize hnil : ([] : List UInt8) = e at hr
      cases hr with
      | here ha _ => exact lenRec_ne_nil h4 ha (List.append_eq_nil_iff.mp hnil.symm).1
      | later ha _ _ => exact lenRec_ne_nil h4 ha (List.append_eq_nil_iff.mp hnil.symm).1
    · rintro ⟨pre, a, post, he, _⟩
      exact absurd he (by simp)
  | cons a as ih =>
    obtain ⟨x, hx, hd⟩ := Outcome.bind_eq_ok.mp hd
    obtain ⟨y, hy, hd⟩ := Outcome.bind_eq_ok.mp hd
    injection hd with hd
    subst hd
    obtain ⟨hrec, hgb⟩ := hf _ a x hx
    obtain ⟨hrun, hhits⟩ := ih hy
    rw [lenRun_append h4 hrec, lenHits_append h4 hrec, (hgb y).1, (hgb y).2, hrun, hhits]
    refine ⟨List.forall_mem_cons.symm, ?_⟩
    constructor
    · rintro (hb | ⟨hg, pre, b, post, rfl, hb, hpre⟩)
      · exact ⟨[], a, as, rfl, hb, fun b hb => absurd hb (by simp)⟩
      · exact ⟨a :: pre, b, post, rfl, hb, List.forall_mem_cons.mpr ⟨hg, hpre⟩⟩
    · rintro ⟨pre, b, post, he, hb, hpre⟩
      cases pre with
      | nil =>
        obtain ⟨rfl, rfl⟩ := List.cons.inj he
        exact .inl hb
      | cons c pre =>
        obtain ⟨rfl, rfl⟩ := List.cons.inj he
        obtain ⟨hg, hpre⟩ := List.forall_mem_cons.mp hpre
        exact .inr ⟨hg, pre, b, post, rfl, hb, hpre⟩

/-! ## lists related element by element -/

section
variable {γ : Type} {R : α → β → Prop} {as : List α} {bs : List β}

theorem forall₂_partner (h : List.Forall₂ R as bs) {b : β} (hb : b ∈ bs) : ∃ a ∈ as, R a b := by
  induction h with
  | nil => exact absurd hb (by simp)
  | @cons a' b' as bs hab _ ih =>
    rcases List.mem_cons.mp hb with rfl | hb
    · exact ⟨a', List.mem_cons_self .., hab⟩
    · obtain ⟨a, ha, hr⟩ := ih hb
      exact ⟨a, List.mem_cons_of_mem _ ha, hr⟩

/-- two relations along the same lists -/
theorem forall₂_common {α β : Type} {R S : α → β → Prop} {as : List α} {bs : List β}
    (h : List.Forall₂ R as bs) (h' : List.Forall₂ S as bs) {a : α} (ha : a ∈ as) :
    ∃ b, R a b ∧ S a b := by
  induction h with
  | nil => exact absurd ha (by simp)
  | @cons x b as bs hr _ ih =>
    cases h' with
    | cons hs ht =>
      rcases List.mem_cons.mp ha with rfl | ha
      · exact ⟨b, hr, hs⟩
      · exact ih ht ha

theorem forall₂_trans {S : β → γ → Prop} {T : α → γ → Prop} {cs : List γ}
    (h : ∀ a ∈ as, ∀ b c, R a b → S b c → T a c) (h1 : List.Forall₂ R as bs)
    (h2 : List.Forall₂ S bs cs) : List.Forall₂ T as cs := by
  induction h1 generalizing cs with
  | nil =>
    cases h2
    exact .nil
  | cons hab _ ih =>
    cases h2 with
    | cons hbc h2 =>
      exact .cons (h _ (List.mem_cons_self ..) _ _ hab hbc)
        (ih (fun a ha => h a (List.mem_cons_of_mem _ ha)) h2)

theorem forall₂_map_eq {f : α → γ} {g : β → γ} (h : List.Forall₂ R as bs)
    (hfg : ∀ a b, R a b → f a = g b) : as.map f = bs.map g := by
  rw [← List.forall₂_eq_eq_eq, List.forall₂_map_left_iff, List.forall₂_map_right_iff]
  exact h.imp hfg

end

end GoLang
