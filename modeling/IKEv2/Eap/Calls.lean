import IKEv2.Eap.AkaMac
import IKEv2.Eap.SetRead

/-!
# Calls on an EAP-AKA' packet

The attributes are kept in a map and, once a packet has been parsed, in a list of their types.  The
calls that change them are `SetAttr`, `Unmarshal` and, through AT_MAC, `CalcEapAkaPrimeAtMAC`; each of
them may fail on the way.

* `consistent_after`, `consistent_run`   map and list fit after every call, and so after every run;
* `store_invariant`                      what follows for the encoder and for refused calls;
* `mac_installed`                        the MAC does not depend on what is stored in AT_MAC;
* `set_get_iff`                          when `GetAttr` gives back what was set.
-/

set_option linter.unusedVariables false

namespace Ike
open GoLang

/-! ## the map and the order -/

/-- attributes stand under their types, and the order, if there is one, has each type once that has
an attribute -/
structure EapAkaPrime.Consistent (d : EapAkaPrime) : Prop where
  own : ∀ t a, d.lookup t = some a → a.attrType = t
  order : ∀ o, d.attributeOrder = some o → o.Nodup ∧ ∀ t, t ∈ o ↔ (d.lookup t).isSome

/-- a nil map is replaced by an empty one -/
def EapAkaPrime.made (d : EapAkaPrime) : EapAkaPrime :=
  { d with attributes := some fun t => d.lookup t }

theorem lookup_made (d : EapAkaPrime) (t : UInt8) : d.made.lookup t = d.lookup t := rfl

theorem lookup_store (d : EapAkaPrime) (a : EapAkaPrimeAttr) (t : UInt8) :
    (d.store a).lookup t = if t = a.attrType then some a else d.lookup t := rfl

theorem order_store (d : EapAkaPrime) (a : EapAkaPrimeAttr) :
    (d.store a).attributeOrder = if (d.lookup a.attrType).isNone then
      d.attributeOrder.map fun o => o ++ [a.attrType] else d.attributeOrder := rfl

theorem consistent_zero : EapAkaPrime.zero.Consistent :=
  ⟨fun t a h => absurd h (by simp [EapAkaPrime.zero, EapAkaPrime.lookup]),
    fun o h => absurd h (by simp [EapAkaPrime.zero])⟩

theorem consistent_new (subType : UInt8) : (newEapAkaPrime subType).Consistent :=
  ⟨fun t a h => absurd h (by simp [newEapAkaPrime, EapAkaPrime.lookup]),
    fun o h => absurd h (by simp [newEapAkaPrime])⟩

theorem consistent_blank (sub : UInt8) (res : UInt16) : (EapAkaPrime.blank sub res).Consistent := by
  refine ⟨fun t a h => absurd h (by simp [EapAkaPrime.blank, EapAkaPrime.lookup]), ?_⟩
  intro o h
  obtain rfl : [] = o := Option.some.inj h
  exact ⟨List.nodup_nil, fun t => by simp [EapAkaPrime.blank, EapAkaPrime.lookup]⟩

theorem consistent_made {d : EapAkaPrime} (h : d.Consistent) : d.made.Consistent := ⟨h.own, h.order⟩

theorem own_store {d : EapAkaPrime} (h : ∀ t b, d.lookup t = some b → b.attrType = t)
    (a : EapAkaPrimeAttr) (t : UInt8) (b : EapAkaPrimeAttr) (hb : (d.store a).lookup t = some b) :
    b.attrType = t := by
  rw [lookup_store] at hb
  by_cases ht : t = a.attrType
  · rw [if_pos ht] at hb
    rw [← Option.some.inj hb, ht]
  · rw [if_neg ht] at hb
    exact h t b hb

theorem consistent_store {d : EapAkaPrime} (h : d.Consistent) (a : EapAkaPrimeAttr) :
    (d.store a).Consistent := by
  constructor
  · exact own_store h.own a
  · intro o ho
    rw [order_store] at ho
    by_cases hnew : (d.lookup a.attrType).isNone
    · -- a new type goes to the end of the order
      rw [if_pos hnew] at ho
      obtain ⟨o', ho', rfl⟩ := Option.map_eq_some_iff.mp ho
      obtain ⟨hnd, hmem⟩ := h.order o' ho'
      have hnot : a.attrType ∉ o' := by
        rw [hmem]
        simpa using hnew
      refine ⟨List.nodup_append.mpr ⟨hnd, List.nodup_singleton _, ?_⟩, fun t => ?_⟩
      · intro x hx y hy
        rw [List.mem_singleton.mp hy]
        exact fun hxy => hnot (hxy ▸ hx)
      · rw [List.mem_append, hmem, List.mem_singleton, lookup_store]
        by_cases ht : t = a.attrType
        · simp [ht]
        · simp [ht]
    · rw [if_neg hnew] at ho
      obtain ⟨hnd, hmem⟩ := h.order o ho
      refine ⟨hnd, fun t => ?_⟩
      rw [hmem, lookup_store]
      by_cases ht : t = a.attrType
      · rw [if_pos ht, ht]
        simpa [Option.isSome_iff_ne_none] using hnew
      · rw [if_neg ht]

/-! ## one call -/

/-- what `SetAttr` does: the attribute is stored, or nothing but the map is made -/
theorem EapAkaPrime.setAttr_cases (t : UInt8) (value : Bytes) (d : EapAkaPrime) :
    (∃ a, EapAkaPrimeAttr.setAttr t value = .ok a ∧
      EapAkaPrime.setAttr t value d = (.ok (), d.made.store a)) ∨
    ((∀ a, EapAkaPrimeAttr.setAttr t value ≠ .ok a) ∧ (EapAkaPrime.setAttr t value d).1 ≠ .ok () ∧
      (EapAkaPrime.setAttr t value d).2 = d.made) := by
  have hset : EapAkaPrime.setAttr t value d = (Proc.lift ((EapAkaPrimeAttr.setAttr t value).wrapf
      "EAP-AKA' SetAttr failed") >>= fun a => Proc.modify fun e => e.store a) d.made := rfl
  rw [hset]
  cases h : EapAkaPrimeAttr.setAttr t value with
  | ok a => exact Or.inl ⟨a, rfl, rfl⟩
  | err e => exact Or.inr ⟨fun a => by simp, by simp [Proc.lift, Proc.bind_apply], rfl⟩
  | panic p => exact Or.inr ⟨fun a => by simp, by simp [Proc.lift, Proc.bind_apply], rfl⟩

theorem consistent_setAttr (t : UInt8) (value : Bytes) :
    Proc.Maintains EapAkaPrime.Consistent (EapAkaPrime.setAttr t value) := by
  intro d h
  rcases EapAkaPrime.setAttr_cases t value d with ⟨a, _, he⟩ | ⟨_, _, he⟩
  · rw [he]
    exact consistent_store (consistent_made h) a
  · rw [he]
    exact consistent_made h

/-- the loop of the decoder, ended by the data or by an error -/
theorem consistent_attrLoop (n : Nat) (r : Bytes) :
    Proc.Maintains EapAkaPrime.Consistent (EapAkaPrime.attrLoop n r) := by
  induction n generalizing r with
  | zero => exact Proc.maintains_lift _
  | succ n ih =>
    intro d h
    rw [attrLoop_succ]
    cases hr : readAttr r with
    | ok next =>
      cases next with
      | none => exact h
      | some x => exact ih x.2 _ (consistent_store h x.1)
    | err e => exact h
    | panic p => exact h

theorem consistent_unmarshal (rawData : Bytes) :
    Proc.Maintains EapAkaPrime.Consistent (EapAkaPrime.unmarshal rawData) := by
  rcases EapAkaPrime.unmarshal_cases rawData with ⟨t, hfail⟩ | ⟨sub, r1, r2, rest, rfl⟩
  · rw [hfail]
    exact Proc.maintains_lift _
  · intro d h
    rw [EapAkaPrime.unmarshal_cons]
    exact consistent_attrLoop _ _ _ (consistent_blank _ _)

/-! ## a run -/

/-- the exported methods; `calcMac` is that of the packet that holds the data -/
inductive AkaCall where
  | setAttr (attrType : UInt8) (value : Bytes)
  | unmarshal (rawData : Bytes)
  | getAttr (attrType : UInt8)
  | marshal
  | calcMac (code identifier : UInt8) (key : Bytes)

/-- the packet that holds `d` -/
def akaPacket (code identifier : UInt8) (d : EapAkaPrime) : EAP :=
  { code := code, identifier := identifier, eapTypeData := some (.akaPrime d) }

/-- the AKA' data of a packet -/
def EAP.akaPrime (e : EAP) : Option EapAkaPrime :=
  match e.eapTypeData with
  | some (.akaPrime d) => some d
  | _ => none

/-- the data after the call, whether it succeeds or not -/
def AkaCall.after (C : Crypto) (d : EapAkaPrime) : AkaCall → EapAkaPrime
  | .setAttr attrType value => (EapAkaPrime.setAttr attrType value d).2
  | .unmarshal rawData => (EapAkaPrime.unmarshal rawData d).2
  | .getAttr _ => d
  | .marshal => d
  | .calcMac code identifier key =>
    ((EAP.calcEapAkaPrimeAtMAC C key (akaPacket code identifier d)).2.akaPrime).getD d

/-- one call after the other -/
def runAka (C : Crypto) (d : EapAkaPrime) (calls : List AkaCall) : EapAkaPrime :=
  calls.foldl (AkaCall.after C) d

/-- the MAC call leaves the data with AT_MAC set to zero -/
theorem calcMac_after (C : Crypto) (key : Bytes) (code identifier : UInt8) (d : EapAkaPrime) :
    (EAP.calcEapAkaPrimeAtMAC C key (akaPacket code identifier d)).2 =
      akaPacket code identifier (EapAkaPrime.initMAC d).2 := rfl

theorem consistent_after (C : Crypto) {d : EapAkaPrime} (h : d.Consistent) (call : AkaCall) :
    (call.after C d).Consistent := by
  cases call with
  | setAttr t value => exact consistent_setAttr t value d h
  | unmarshal rawData => exact consistent_unmarshal rawData d h
  | getAttr t => exact h
  | marshal => exact h
  | calcMac code identifier key =>
    show (EapAkaPrime.initMAC d).2.Consistent
    exact consistent_setAttr atMAC _ d h

/-- **Map and order fit after every run.** -/
theorem consistent_run (C : Crypto) {d : EapAkaPrime} (h : d.Consistent) (calls : List AkaCall) :
    (runAka C d calls).Consistent := by
  induction calls generalizing d with
  | nil => exact h
  | cons call calls ih => exact ih (consistent_after C h call)

/-! ## the encoder -/

theorem allOctets_sorted : ((List.range 256).map UInt8.ofNat).Pairwise (· < ·) := by
  rw [List.pairwise_map]
  refine List.pairwise_lt_range.imp_of_mem fun {i j} hi hj hij => ?_
  have hi' : i < 256 := List.mem_range.mp hi
  have hj' : j < 256 := List.mem_range.mp hj
  rw [UInt8.lt_iff_toNat_lt, UInt8.toNat_ofNat_of_lt' hi', UInt8.toNat_ofNat_of_lt' hj']
  exact hij

theorem getAttrsKeys_none {d : EapAkaPrime} (h : d.attributeOrder = none) :
    d.getAttrsKeys = ((List.range 256).map UInt8.ofNat).filter fun t => (d.lookup t).isSome := by
  rw [EapAkaPrime.getAttrsKeys, h]

theorem getAttrsKeys_some {d : EapAkaPrime} {o : List UInt8} (h : d.attributeOrder = some o) :
    d.getAttrsKeys = o := by
  rw [EapAkaPrime.getAttrsKeys, h]

theorem getAttrsKeys_sorted {d : EapAkaPrime} (h : d.attributeOrder = none) :
    d.getAttrsKeys.Pairwise (· < ·) := by
  rw [getAttrsKeys_none h]
  exact allOctets_sorted.filter _

theorem EapAkaPrime.Consistent.keys {d : EapAkaPrime} (h : d.Consistent) :
    d.getAttrsKeys.Nodup ∧ ∀ t, t ∈ d.getAttrsKeys ↔ (d.lookup t).isSome := by
  cases ho : d.attributeOrder with
  | none =>
    refine ⟨(getAttrsKeys_sorted ho).imp fun hlt => UInt8.ne_of_lt hlt, fun t => ?_⟩
    exact mem_getAttrsKeys ho
  | some o =>
    rw [getAttrsKeys_some ho]
    exact h.order o ho

/-- the encoder writes the attributes `as`: each attribute of the map once, in the order of the list
or, without one, by increasing type -/
structure Emits (d : EapAkaPrime) (as : List EapAkaPrimeAttr) : Prop where
  marshal : d.marshal = .ok ([eapTypeAkaPrime, d.subType] ++ putUint16 d.reserved
    ++ as.flatMap EapAkaPrimeAttr.octets)
  once : (as.map EapAkaPrimeAttr.attrType).Nodup
  all : ∀ a, a ∈ as ↔ d.lookup a.attrType = some a
  ordered : ∀ o, d.attributeOrder = some o → as.map EapAkaPrimeAttr.attrType = o
  sorted : d.attributeOrder = none → (as.map EapAkaPrimeAttr.attrType).Pairwise (· < ·)

theorem EapAkaPrime.Consistent.emits {d : EapAkaPrime} (h : d.Consistent) : ∃ as, Emits d as := by
  obtain ⟨hnodup, hmem⟩ := h.keys
  have hfound : ∀ t ∈ d.getAttrsKeys, ∃ a, d.lookup t = some a :=
    fun t ht => Option.isSome_iff_exists.mp ((hmem t).mp ht)
  have : Nonempty EapAkaPrimeAttr := ⟨macZero⟩
  choose! A hA using hfound
  have htypes : (d.getAttrsKeys.map A).map EapAkaPrimeAttr.attrType = d.getAttrsKeys := by
    rw [List.map_map]
    conv_rhs => rw [← List.map_id d.getAttrsKeys]
    exact List.map_congr_left fun t ht => h.own t (A t) (hA t ht)
  have hemit : emitAll d.attrOctets d.getAttrsKeys =
      .ok (d.getAttrsKeys.flatMap fun t => (A t).octets) := by
    apply emitAll_ok
    intro t ht
    rw [EapAkaPrime.attrOctets, hA t ht]
  refine ⟨d.getAttrsKeys.map A, ?_, by rw [htypes]; exact hnodup, fun a => ?_, fun o ho => ?_,
    fun ho => ?_⟩
  · rw [EapAkaPrime.marshal, hemit, List.flatMap_map]
    rfl
  · constructor
    · intro ha
      obtain ⟨t, ht, rfl⟩ := List.mem_map.mp ha
      rw [h.own t (A t) (hA t ht)]
      exact hA t ht
    · intro ha
      have ht : a.attrType ∈ d.getAttrsKeys := (hmem _).mpr (by rw [ha]; rfl)
      refine List.mem_map.mpr ⟨a.attrType, ht, ?_⟩
      have hAt := hA _ ht
      rw [ha] at hAt
      exact (Option.some.inj hAt).symm
  · rw [htypes, getAttrsKeys_some ho]
  · rw [htypes]
    exact getAttrsKeys_sorted ho

/-- **The attribute store.**  After every run of calls on a new packet, or on the zero value, each
attribute stands under its own type, and the order is nil or lists each type of an attribute once; the
encoder writes each attribute once; and a refused `SetAttr` changes no attribute and not the order. -/
theorem store_invariant (C : Crypto) (calls : List AkaCall) {start d : EapAkaPrime}
    (hstart : start = EapAkaPrime.zero ∨ ∃ subType, start = newEapAkaPrime subType)
    (hrun : runAka C start calls = d) :
    (∀ t a, d.lookup t = some a → a.attrType = t) ∧
    (∀ o, d.attributeOrder = some o → o.Nodup ∧ ∀ t, t ∈ o ↔ (d.lookup t).isSome) ∧
    (∃ as, Emits d as) ∧
    ∀ t value, (EapAkaPrime.setAttr t value d).1 ≠ .ok () →
      (∀ u, (EapAkaPrime.setAttr t value d).2.lookup u = d.lookup u) ∧
        (EapAkaPrime.setAttr t value d).2.attributeOrder = d.attributeOrder := by
  have hc : d.Consistent := by
    rw [← hrun]
    refine consistent_run C ?_ calls
    rcases hstart with rfl | ⟨subType, rfl⟩
    · exact consistent_zero
    · exact consistent_new subType
  refine ⟨hc.own, hc.order, hc.emits, fun t value hrefused => ?_⟩
  rcases EapAkaPrime.setAttr_cases t value d with ⟨a, _, he⟩ | ⟨_, _, he⟩
  · exact absurd (by rw [he]) hrefused
  · rw [he]
    exact ⟨fun u => rfl, rfl⟩

/-- an accepted call, a refused one, one that stops in the middle of a packet, and the MAC -/
def storeCalls : List AkaCall :=
  [.setAttr atKDF [0, 1], .setAttr atRES [1], .unmarshal [50, 1, 0, 0, 24, 1, 0, 7, 24, 1, 0, 9, 11, 4],
    .getAttr atKDF, .calcMac 1 2 [], .setAttr atAUTS (List.replicate 14 3), .marshal]

theorem store_invariant_calls :
    (runAka (markCrypto []) (newEapAkaPrime 1) storeCalls).attributeOrder =
        some [atKDF, atMAC, atAUTS] ∧
      ∃ as, Emits (runAka (markCrypto []) (newEapAkaPrime 1) storeCalls) as := by
  have h := store_invariant (markCrypto []) storeCalls (Or.inr ⟨1, rfl⟩) rfl
  exact ⟨by rfl, h.2.2.1⟩

/-! ## the MAC -/

theorem store_store {d : EapAkaPrime} {a b : EapAkaPrimeAttr} (h : a.attrType = b.attrType) :
    (d.store a).store b = d.store b := by
  have hmap : (fun t => if t = b.attrType then some b else (d.store a).lookup t) =
      fun t => if t = b.attrType then some b else d.lookup t := by
    funext t
    by_cases ht : t = b.attrType
    · rw [if_pos ht, if_pos ht]
    · rw [if_neg ht, if_neg ht, lookup_store, if_neg (by rw [h]; exact ht)]
  have hlook : (d.store a).lookup b.attrType = some a := by rw [lookup_store, if_pos h.symm]
  have horder : ((d.store a).store b).attributeOrder = (d.store b).attributeOrder := by
    rw [order_store, hlook, order_store, order_store, h]
    rfl
  show EapAkaPrime.mk d.subType d.reserved _ ((d.store a).store b).attributeOrder = _
  rw [hmap, horder]
  rfl

/-- the call sets AT_MAC to 16 octets, computes the MAC, or only reads -/
def AkaCall.OnMac : AkaCall → Prop
  | .setAttr attrType value => attrType = atMAC ∧ value.length = 16
  | .unmarshal _ => False
  | .getAttr _ => True
  | .marshal => True
  | .calcMac _ _ _ => True

theorem macAttr_ok {v : Bytes} (hv : v.length = 16) :
    EapAkaPrimeAttr.setAttr atMAC v = .ok ⟨atMAC, 5, 0, v⟩ := by
  have hk : attrKind atMAC = .value16 := rfl
  rw [EapAkaPrimeAttr.setAttr, hk]
  dsimp only
  rw [if_neg (not_not_intro hv), hv]
  rfl

theorem EapAkaPrime.setAttr_mac {v : Bytes} (hv : v.length = 16) (d : EapAkaPrime) :
    EapAkaPrime.setAttr atMAC v d = (.ok (), d.made.store ⟨atMAC, 5, 0, v⟩) := by
  rcases EapAkaPrime.setAttr_cases atMAC v d with ⟨a, ha, he⟩ | ⟨hno, _⟩
  · rw [macAttr_ok hv] at ha
    rw [he, ← Outcome.ok.inj ha]
  · exact absurd (macAttr_ok hv) (hno _)

/-- with AT_MAC set to zero, nothing of such a call is left -/
theorem initMAC_after (C : Crypto) (d : EapAkaPrime) {call : AkaCall} (h : call.OnMac) :
    EapAkaPrime.initMAC (call.after C d) = EapAkaPrime.initMAC d := by
  have hstore : ∀ a : EapAkaPrimeAttr, a.attrType = atMAC →
      EapAkaPrime.initMAC (d.made.store a) = EapAkaPrime.initMAC d := by
    intro a ha
    rw [initMAC_eq, initMAC_eq]
    exact congrArg (Prod.mk _) (store_store (d := d.made) ha)
  cases call with
  | setAttr t value =>
    obtain ⟨rfl, hv⟩ := h
    show EapAkaPrime.initMAC (EapAkaPrime.setAttr atMAC value d).2 = _
    rw [EapAkaPrime.setAttr_mac hv]
    exact hstore _ rfl
  | unmarshal rawData => exact False.elim h
  | getAttr t => rfl
  | marshal => rfl
  | calcMac code identifier key => exact hstore macZero rfl

theorem initMAC_run (C : Crypto) (d : EapAkaPrime) {calls : List AkaCall}
    (h : ∀ call ∈ calls, call.OnMac) :
    EapAkaPrime.initMAC (runAka C d calls) = EapAkaPrime.initMAC d := by
  induction calls generalizing d with
  | nil => rfl
  | cons call calls ih =>
    have hcall := initMAC_after C d (h call (List.mem_cons_self ..))
    exact (ih (call.after C d) fun c hc => h c (List.mem_cons_of_mem _ hc)).trans hcall

/-- the MAC call sees of the data only what `initMAC` makes of them -/
theorem calcMac_congr (C : Crypto) (key : Bytes) (code identifier : UInt8) {d d' : EapAkaPrime}
    (h : EapAkaPrime.initMAC d' = EapAkaPrime.initMAC d) :
    (EAP.calcEapAkaPrimeAtMAC C key (akaPacket code identifier d')).1 =
      (EAP.calcEapAkaPrimeAtMAC C key (akaPacket code identifier d)).1 := by
  simp only [EAP.calcEapAkaPrimeAtMAC, akaPacket, h]

/-- `d'` is `d` with AT_MAC set to zero -/
structure MacCleared (d d' : EapAkaPrime) : Prop where
  subType : d'.subType = d.subType
  reserved : d'.reserved = d.reserved
  mac : d'.lookup atMAC = some macZero
  others : ∀ t, t ≠ atMAC → d'.lookup t = d.lookup t
  order : d'.attributeOrder = if (d.lookup atMAC).isNone then
    d.attributeOrder.map fun o => o ++ [atMAC] else d.attributeOrder
  keys : d'.getAttrsKeys.filter (fun t => t ≠ atMAC) = d.getAttrsKeys.filter fun t => t ≠ atMAC

theorem macCleared_initMAC (d : EapAkaPrime) : MacCleared d (EapAkaPrime.initMAC d).2 := by
  have hothers : ∀ t, t ≠ atMAC → (EapAkaPrime.initMAC d).2.lookup t = d.lookup t := by
    intro t ht
    rw [initMAC_eq]
    exact if_neg ht
  have horder : (EapAkaPrime.initMAC d).2.attributeOrder = if (d.lookup atMAC).isNone then
      d.attributeOrder.map fun o => o ++ [atMAC] else d.attributeOrder := rfl
  refine ⟨rfl, rfl, rfl, hothers, horder, ?_⟩
  cases ho : d.attributeOrder with
  | none =>
    have ho' : (EapAkaPrime.initMAC d).2.attributeOrder = none := by
      rw [horder, ho]
      by_cases hn : (d.lookup atMAC).isNone
      · rw [if_pos hn]; rfl
      · rw [if_neg hn]
    rw [getAttrsKeys_none ho, getAttrsKeys_none ho', List.filter_filter, List.filter_filter]
    refine List.filter_congr fun t _ => ?_
    by_cases ht : t = atMAC
    · simp [ht]
    · rw [hothers t ht]
  | some o =>
    rw [ho] at horder
    rw [getAttrsKeys_some ho]
    by_cases hn : (d.lookup atMAC).isNone
    · rw [if_pos hn] at horder
      rw [getAttrsKeys_some horder, List.filter_append]
      simp
    · rw [if_neg hn] at horder
      rw [getAttrsKeys_some horder]

/-- **Installing the MAC does not change the MAC.**  Setting AT_MAC to 16 octets succeeds; the MAC is
the same after any number of such calls and of calls that compute it; and such a call sets AT_MAC to
zero, at the end of the order if it was not there, and changes nothing else. -/
theorem mac_installed (C : Crypto) (key : Bytes) (code identifier : UInt8) (d : EapAkaPrime) :
    (∀ v : Bytes, v.length = 16 → (EapAkaPrime.setAttr atMAC v d).1 = .ok ()) ∧
    (∀ calls : List AkaCall, (∀ call ∈ calls, call.OnMac) →
      (EAP.calcEapAkaPrimeAtMAC C key (akaPacket code identifier (runAka C d calls))).1 =
        (EAP.calcEapAkaPrimeAtMAC C key (akaPacket code identifier d)).1) ∧
    ∃ d', (EAP.calcEapAkaPrimeAtMAC C key (akaPacket code identifier d)).2 =
      akaPacket code identifier d' ∧ MacCleared d d' := by
  refine ⟨fun v hv => ?_, fun calls hcalls => ?_, ?_⟩
  · rw [EapAkaPrime.setAttr_mac hv]
  · exact calcMac_congr C key code identifier (initMAC_run C d hcalls)
  · exact ⟨(EapAkaPrime.initMAC d).2, calcMac_after C key code identifier d, macCleared_initMAC d⟩

/-! ## reading what was set -/

/-- two maps, made both of them, that agree on a type give the same for it, errors included -/
theorem EapAkaPrime.getAttr_congr {d d' : EapAkaPrime}
    (hd : ∀ k b, d.lookup k = some b → b.attrType = k)
    (hd' : ∀ k b, d'.lookup k = some b → b.attrType = k) (hm : d.attributes.isSome)
    (hm' : d'.attributes.isSome) {t : UInt8} (h : d'.lookup t = d.lookup t) :
    d'.getAttr t = d.getAttr t := by
  obtain ⟨m, hm⟩ := Option.isSome_iff_exists.mp hm
  obtain ⟨m', hm'⟩ := Option.isSome_iff_exists.mp hm'
  have hlook : ∀ k, d.lookup k = m k := fun k => by rw [EapAkaPrime.lookup, hm]; rfl
  have hlook' : ∀ k, d'.lookup k = m' k := fun k => by rw [EapAkaPrime.lookup, hm']; rfl
  rw [hlook, hlook'] at h
  rw [EapAkaPrime.getAttr, EapAkaPrime.getAttr, hm, hm']
  dsimp only
  rw [findSome?_keyed fun k b hk => hd k b ((hlook k).trans hk),
    findSome?_keyed fun k b hk => hd' k b ((hlook' k).trans hk), h]

/-- what `GetValue` gives of a new attribute: the value, and behind it the padding -/
theorem getValue_setAttr {t : UInt8} {value : Bytes} {a : EapAkaPrimeAttr}
    (h : EapAkaPrimeAttr.setAttr t value = .ok a) :
    a.getValue = value ++ List.replicate
      (if attrKind t = .res ∨ attrKind t = .kdfInput then paddingBytes (4 + value.length) else 0) 0 := by
  have hok := setAttr_ok h
  have hread : attrKind t ≠ .code → a.getValue = a.value :=
    fun hc => getValue_of_kind (by rw [setAttr_type h]; exact hc)
  cases hk : attrKind t with
  | value16 =>
    rw [hk] at hok hread
    rw [hread (by simp), hok.2]
    simp
  | auts =>
    rw [hk] at hok hread
    rw [hread (by simp), hok.2]
    simp
  | kdfInput =>
    rw [hk] at hok hread
    rw [hread (by simp), hok, if_pos (Or.inr rfl), paddedAttr]
  | res =>
    rw [hk] at hok hread
    rw [hread (by simp), hok.2, if_pos (Or.inl rfl), paddedAttr]
  | code =>
    rw [hk] at hok
    obtain ⟨x, y, rfl, rfl⟩ := hok
    rw [EapAkaPrimeAttr.getValue, if_pos (attrKind_code.mp hk), putUint16_ofOctets]
    simp
  | checkcode =>
    rw [hk] at hok hread
    rw [hread (by simp), hok]
    simp
  | unhandled =>
    rw [hk] at hok
    exact False.elim hok

/-- the setter takes the value and puts padding behind it -/
def PadsValue (t : UInt8) (value : Bytes) : Prop :=
  (t = atRES ∧ 4 ≤ value.length ∧ value.length ≤ 16 ∨ t = atKDFINPUT) ∧ value.length % 4 ≠ 0

theorem setAttr_of_pads {t : UInt8} {value : Bytes} (h : PadsValue t value) :
    ∃ a, EapAkaPrimeAttr.setAttr t value = .ok a := by
  rcases h.1 with ⟨rfl, hlo, hhi⟩ | rfl
  · have hpad := (paddingBytes_spec (4 + value.length)).2
    have hk : attrKind atRES = .res := rfl
    simp only [EapAkaPrimeAttr.setAttr, hk,
      if_neg (show ¬ (value.length * 8 > 128 ∨ value.length * 8 < 32) by omega),
      if_neg (show ¬ value.length * 8 > 65535 by omega),
      if_neg (show ¬ (4 + value.length + paddingBytes (4 + value.length)) / 4 > 255 by omega)]
    exact ⟨_, rfl⟩
  · exact ⟨_, rfl⟩

theorem getValue_iff {t : UInt8} {value : Bytes} {a : EapAkaPrimeAttr}
    (h : EapAkaPrimeAttr.setAttr t value = .ok a) : a.getValue = value ↔ ¬ PadsValue t value := by
  have hok := setAttr_ok h
  have hkind := attrKind_types t
  rw [getValue_setAttr h, List.append_right_eq_self, List.replicate_eq_nil_iff]
  have hpad : paddingBytes (4 + value.length) = 0 ↔ value.length % 4 = 0 := by
    unfold paddingBytes
    omega
  by_cases hp : attrKind t = .res ∨ attrKind t = .kdfInput
  · rw [if_pos hp, hpad, PadsValue, not_and_not_right]
    have htaken : t = atRES ∧ 4 ≤ value.length ∧ value.length ≤ 16 ∨ t = atKDFINPUT := by
      rcases hp with hk | hk
      · rw [hk] at hok hkind
        exact Or.inl ⟨hkind, hok.1⟩
      · rw [hk] at hkind
        exact Or.inr hkind
    exact ⟨fun h4 _ => h4, fun h4 => h4 htaken⟩
  · rw [if_neg hp]
    refine iff_of_true rfl fun hpads => hp ?_
    rcases hpads.1 with ⟨rfl, _⟩ | rfl
    · exact Or.inl rfl
    · exact Or.inr rfl

/-- `SetAttr` and then `GetAttr`: what was set comes back, everything else is as it was.  The errors
too are as they were, unless the map was nil before. -/
structure SetThenGet (d : EapAkaPrime) (t : UInt8) (value : Bytes) : Prop where
  read : (EapAkaPrime.setAttr t value d).1 = .ok () →
    ∃ a, (EapAkaPrime.setAttr t value d).2.getAttr t = .ok a ∧ a.getValue = value
  others : ∀ u, (EapAkaPrime.setAttr t value d).1 = .ok () → u ≠ t →
    ((EapAkaPrime.setAttr t value d).2.getAttr u).value = (d.getAttr u).value
  refused : ∀ u, (EapAkaPrime.setAttr t value d).1 ≠ .ok () →
    ((EapAkaPrime.setAttr t value d).2.getAttr u).value = (d.getAttr u).value
  errors : ∀ u, d.attributes.isSome → (EapAkaPrime.setAttr t value d).1 ≠ .ok () ∨ u ≠ t →
    (EapAkaPrime.setAttr t value d).2.getAttr u = d.getAttr u

/-- **`GetAttr` gives what was set**, iff the setter puts no padding behind it: not for AT_RES and
AT_KDF_INPUT with a value whose length is no multiple of four. -/
theorem set_get_iff {d : EapAkaPrime} (hd : ∀ k b, d.lookup k = some b → b.attrType = k)
    (t : UInt8) (value : Bytes) : SetThenGet d t value ↔ ¬ PadsValue t value := by
  rcases EapAkaPrime.setAttr_cases t value d with ⟨a, ha, he⟩ | ⟨hno, hfail, he⟩
  · have hty := setAttr_type ha
    have hown : ∀ k b, (d.made.store a).lookup k = some b → b.attrType = k :=
      own_store (d := d.made) hd a
    have hget : (d.made.store a).getAttr t = .ok a :=
      EapAkaPrime.getAttr_lookup hown (by rw [lookup_store, if_pos hty.symm])
    have hother : ∀ u, u ≠ t → (d.made.store a).lookup u = d.lookup u := by
      intro u hu
      rw [lookup_store, hty, if_neg hu, lookup_made]
    constructor
    · intro h
      obtain ⟨b, hb, hv⟩ := h.read (by rw [he])
      rw [he, hget] at hb
      obtain rfl := Outcome.ok.inj hb
      exact (getValue_iff ha).mp hv
    · intro h
      constructor
      · intro _
        exact ⟨a, by rw [he]; exact hget, (getValue_iff ha).mpr h⟩
      · intro u _ hu
        rw [he, EapAkaPrime.getAttr_value hown, EapAkaPrime.getAttr_value hd, hother u hu]
      · intro u hfail
        exact absurd (by rw [he]) hfail
      · intro u hm hu
        have hu : u ≠ t := hu.resolve_left fun hfail => hfail (by rw [he])
        rw [he]
        exact EapAkaPrime.getAttr_congr hd hown hm rfl (hother u hu)
  · have hown : ∀ k b, d.made.lookup k = some b → b.attrType = k := hd
    refine iff_of_true ⟨?_, ?_, ?_, ?_⟩ fun hpads => ?_
    · intro hset
      exact absurd hset hfail
    · intro u hset _
      exact absurd hset hfail
    · intro u _
      rw [he, EapAkaPrime.getAttr_value hown, EapAkaPrime.getAttr_value hd, lookup_made]
    · intro u hm _
      rw [he]
      exact EapAkaPrime.getAttr_congr hd hown hm rfl (lookup_made d u)
    · obtain ⟨a, ha⟩ := setAttr_of_pads hpads
      exact hno a ha

/-- a packet with AT_RAND and another AT_KDF_INPUT -/
def filledPacket : EapAkaPrime :=
  (EapAkaPrime.setAttr atKDFINPUT [1, 2, 3, 4]
    (EapAkaPrime.setAttr atRAND (List.replicate 16 9) (newEapAkaPrime 1)).2).2

theorem set_get_kdfInput : SetThenGet filledPacket atKDFINPUT [87, 76, 65, 78] := by
  have hfilled : filledPacket.Consistent :=
    consistent_setAttr _ _ _ (consistent_setAttr _ _ _ (consistent_new 1))
  exact (set_get_iff hfilled.own atKDFINPUT [87, 76, 65, 78]).mpr (by simp [PadsValue])

/-- five octets are set, eight come back -/
theorem set_get_padding :
    (EapAkaPrime.setAttr atRES [1, 2, 3, 4, 5] (newEapAkaPrime 1)).1 = .ok () ∧
    (∃ a, (EapAkaPrime.setAttr atRES [1, 2, 3, 4, 5] (newEapAkaPrime 1)).2.getAttr atRES = .ok a ∧
      a.getValue = [1, 2, 3, 4, 5, 0, 0, 0]) ∧
    ¬ SetThenGet (newEapAkaPrime 1) atRES [1, 2, 3, 4, 5] := by
  have hget : (EapAkaPrime.setAttr atRES [1, 2, 3, 4, 5] (newEapAkaPrime 1)).2.getAttr atRES =
      .ok ⟨atRES, 3, 40, [1, 2, 3, 4, 5, 0, 0, 0]⟩ := by rfl
  refine ⟨rfl, ⟨_, hget, rfl⟩, fun h => ?_⟩
  obtain ⟨a, ha, hv⟩ := h.read rfl
  rw [hget] at ha
  rw [← Outcome.ok.inj ha] at hv
  exact absurd hv (by decide)

end Ike
