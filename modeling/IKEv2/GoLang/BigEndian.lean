import Mathlib.Algebra.Order.Ring.Nat
import Mathlib.Data.List.GetD
import Mathlib.Data.List.Induction
import Mathlib.Tactic.Ring
import Mathlib.Tactic.NormNum
import IKEv2.GoLang.Slice

/-!
# Big-endian octets: `encoding/binary` and the octets of `math/big`

`octNat l` is the number with the big-endian octets `l`, `octets n v` are the last `n` octets of
`v`.  They are inverse to each other on `n` octets (`octNat_octets`, `octets_octNat`); the fixed
width readers and writers of `binary.BigEndian` and the conversions of `big.Int` are instances.
-/

set_option linter.unusedVariables false

namespace GoLang

def octNat (l : List UInt8) : Nat := l.foldl (fun n x => n * 256 + x.toNat) 0

def octets : Nat → Nat → List UInt8
  | 0, _ => []
  | n+1, v => octets n (v / 256) ++ [UInt8.ofNat v]

theorem octets_succ (n v : Nat) : octets (n+1) v = octets n (v / 256) ++ [UInt8.ofNat v] := rfl

@[simp] theorem octNat_nil : octNat [] = 0 := rfl

@[simp] theorem octNat_concat (l : List UInt8) (x : UInt8) :
    octNat (l ++ [x]) = octNat l * 256 + x.toNat := by
  simp [octNat, List.foldl_append]

@[simp] theorem length_octets (n v : Nat) : (octets n v).length = n := by
  induction n generalizing v with
  | zero => rfl
  | succ n ih => rw [octets_succ, List.length_append, ih, List.length_singleton]

theorem octNat_append (a b : List UInt8) :
    octNat (a ++ b) = octNat a * 256 ^ b.length + octNat b := by
  induction b using List.reverseRecOn with
  | nil => simp
  | append_singleton b x ih =>
    rw [← List.append_assoc, octNat_concat, octNat_concat, ih, List.length_append,
      List.length_singleton, pow_succ]
    ring

theorem octNat_lt (l : List UInt8) : octNat l < 256 ^ l.length := by
  induction l using List.reverseRecOn with
  | nil => simp
  | append_singleton l x ih =>
    have hx : x.toNat < 256 := x.toNat_lt
    rw [octNat_concat, List.length_append, List.length_singleton, pow_succ]
    omega

theorem octNat_octets (n v : Nat) : octNat (octets n v) = v % 256 ^ n := by
  induction n generalizing v with
  | zero => simp [octets, Nat.mod_one]
  | succ n ih =>
    have h8 : (UInt8.ofNat v).toNat = v % 256 := by simp
    rw [octets_succ, octNat_concat, ih, h8, pow_succ', Nat.mod_mul]
    ring

theorem octNat_octets_of_lt {n v : Nat} (h : v < 256 ^ n) : octNat (octets n v) = v := by
  rw [octNat_octets, Nat.mod_eq_of_lt h]

theorem octets_octNat (l : List UInt8) : octets l.length (octNat l) = l := by
  induction l using List.reverseRecOn with
  | nil => rfl
  | append_singleton l x ih =>
    have hx : x.toNat < 256 := x.toNat_lt
    have hd : (octNat l * 256 + x.toNat) / 256 = octNat l := by omega
    have ho : UInt8.ofNat (octNat l * 256 + x.toNat) = x := by
      apply UInt8.toNat_inj.mp
      rw [UInt8.toNat_ofNat']
      omega
    rw [List.length_append, List.length_singleton, octets_succ, octNat_concat, hd, ho, ih]

/-- zero octets in front do not change the number -/
theorem octNat_zeros_append (n : Nat) (l : List UInt8) :
    octNat (List.replicate n 0 ++ l) = octNat l := by
  induction n with
  | zero => rfl
  | succ n ih =>
    rw [List.replicate_succ, List.cons_append, ← ih]
    simp [octNat]

/-- the top bit of an octet -/
theorem topBit_eq (x : UInt8) : (x &&& 0x80) >>> 7 = if x.toNat < 128 then 0 else 1 := by
  have key : ∀ n < 256, (UInt8.ofNat n &&& 0x80) >>> 7 = if n < 128 then 0 else 1 := by
    decide +kernel
  have h := key x.toNat x.toNat_lt
  rwa [UInt8.ofNat_toNat] at h

/-! ## `binary.BigEndian` -/

/-- the first `n` octets as a number; the readers index octet `n - 1` first -/
def octUint (n : Nat) (l : List UInt8) : Outcome Nat :=
  if n ≤ l.length then .ok (octNat (l.take n)) else .panic .indexOutOfRange

def uint16 (l : List UInt8) : Outcome UInt16 := UInt16.ofNat <$> octUint 2 l
def uint32 (l : List UInt8) : Outcome UInt32 := UInt32.ofNat <$> octUint 4 l
def uint64 (l : List UInt8) : Outcome UInt64 := UInt64.ofNat <$> octUint 8 l

def putUint16 (v : UInt16) : List UInt8 := octets 2 v.toNat
def putUint32 (v : UInt32) : List UInt8 := octets 4 v.toNat
def putUint64 (v : UInt64) : List UInt8 := octets 8 v.toNat

/-- `binary.BigEndian.PutUint32(buf, v)` -/
def putUint32At (buf : List UInt8) (v : UInt32) : Outcome (List UInt8) :=
  if 4 ≤ buf.length then .ok (putUint32 v ++ buf.drop 4) else .panic .indexOutOfRange

@[simp] theorem length_putUint16 (v : UInt16) : (putUint16 v).length = 2 := length_octets _ _
@[simp] theorem length_putUint32 (v : UInt32) : (putUint32 v).length = 4 := length_octets _ _
@[simp] theorem length_putUint64 (v : UInt64) : (putUint64 v).length = 8 := length_octets _ _

theorem octUint_append {n : Nat} {a : List UInt8} (ha : a.length = n) (r : List UInt8) :
    octUint n (a ++ r) = .ok (octNat a) := by
  have h : n ≤ (a ++ r).length := by rw [List.length_append]; omega
  rw [octUint, if_pos h, List.take_left' ha]

@[simp] theorem uint32_putUint32 (v : UInt32) (r : List UInt8) :
    uint32 (putUint32 v ++ r) = .ok v := by
  have hv : v.toNat < 256 ^ 4 := v.toNat_lt
  rw [uint32, octUint_append (length_putUint32 v), putUint32, octNat_octets_of_lt hv]
  simp

theorem uint16_pair (a b : UInt8) (r : List UInt8) :
    uint16 (a :: b :: r) = .ok (UInt16.ofNat (a.toNat * 256 + b.toNat)) := by
  simp [uint16, octUint, octNat]

/-- the number in the octets `i` and `i + 1` -/
def wordAt (d : List UInt8) (i : Nat) : UInt16 :=
  UInt16.ofNat ((d.getD i 0).toNat * 256 + (d.getD (i + 1) 0).toNat)

/-- `binary.BigEndian.Uint16(d[i:i+2])` as a step of a function -/
theorem slice_uint16_bind {β : Type} {d sp : List UInt8} {i j : Nat} (hij : j = i + 2)
    (hj : j ≤ d.length) (f : UInt16 → Outcome β) :
    ((⟨d, sp⟩ : Slice UInt8).slice i j >>= fun w => uint16 w.data >>= f) = f (wordAt d i) := by
  subst hij
  rw [Slice.slice_data _ (by omega) hj, List.drop_take, Nat.add_sub_cancel_left,
    List.drop_eq_getElem_cons (show i < d.length by omega),
    List.drop_eq_getElem_cons (show i + 1 < d.length by omega)]
  simp only [Outcome.ok_bind, List.take_succ_cons, List.take_zero, uint16_pair]
  rw [wordAt, List.getD_eq_getElem _ _ (show i < d.length by omega),
    List.getD_eq_getElem _ _ (show i + 1 < d.length by omega)]

/-- two octets are the encoding of the number they spell -/
theorem putUint16_ofOctets (a b : UInt8) :
    putUint16 (UInt16.ofNat (a.toNat * 256 + b.toNat)) = [a, b] := by
  have ha : a.toNat < 256 := a.toNat_lt
  have hb : b.toNat < 256 := b.toNat_lt
  have hn : (UInt16.ofNat (a.toNat * 256 + b.toNat)).toNat = a.toNat * 256 + b.toNat := by
    rw [UInt16.toNat_ofNat_of_lt']
    show _ < 65536
    omega
  have h := octets_octNat [a, b]
  rw [putUint16, hn]
  simpa [octNat] using h

theorem uint32_take {l : List UInt8} (h : 4 ≤ l.length) :
    uint32 l = .ok (UInt32.ofNat (octNat (l.take 4))) := by
  rw [uint32, octUint, if_pos h]
  rfl

/-- four octets are the encoding of the number they spell -/
theorem putUint32_ofOctets {l : List UInt8} (h : l.length = 4) :
    putUint32 (UInt32.ofNat (octNat l)) = l := by
  have hlt := octNat_lt l
  rw [h] at hlt
  have ho := octets_octNat l
  rw [h] at ho
  rw [putUint32, UInt32.toNat_ofNat_of_lt' (show octNat l < 4294967296 by omega), ho]

theorem exists_octets_putUint16 (v : UInt16) :
    ∃ a b : UInt8, putUint16 v = [a, b] ∧ a.toNat * 256 + b.toNat = v.toNat := by
  have hv : v.toNat < 65536 := v.toNat_lt
  refine ⟨UInt8.ofNat (v.toNat / 256), UInt8.ofNat v.toNat, rfl, ?_⟩
  rw [UInt8.toNat_ofNat', UInt8.toNat_ofNat']
  omega

theorem toNat_of_putUint16 {v : UInt16} {a b : UInt8} (h : putUint16 v = [a, b]) :
    a.toNat * 256 + b.toNat = v.toNat := by
  obtain ⟨a', b', h', hn⟩ := exists_octets_putUint16 v
  obtain ⟨rfl, rfl⟩ : a = a' ∧ b = b' := by simpa using h.symm.trans h'
  exact hn

theorem ofNat_of_putUint16 {v : UInt16} {a b : UInt8} (h : putUint16 v = [a, b]) :
    UInt16.ofNat (a.toNat * 256 + b.toNat) = v := by
  rw [toNat_of_putUint16 h, UInt16.ofNat_toNat]

end GoLang
