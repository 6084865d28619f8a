import Mathlib.Algebra.BigOperators.Group.List.Basic
import Mathlib.Algebra.Ring.Nat
import Recbcsrv.Lib.Bytes

/-! The time that `SntpClient` of `sntp_client` takes from a packet: seconds since 2000, and nanoseconds. The seconds are right
    through the end of the first NTP era. The fraction is divided by 0xffffffff, and the greatest one gives a whole second. -/

namespace Recbcsrv.NtpTime
open Bytes

/-! ### The conversion -/

/-- The transmit timestamp of a packet, in network byte order. -/
structure TransTS where
  dwInteger : UInt32
  dwFractionl : UInt32

/-- `TTimeSpec`. -/
structure TimeSpec where
  dwSec : UInt32
  dwNanoSec : UInt32
  deriving DecidableEq, Repr

def dwInterval : UInt32 := ((2000 - 1900) * 365 + 25 - 1) * 24 * 3600

/-- A fraction in nanoseconds; the product is one of `SWORD64`. -/
def nanoSec (fraction : UInt32) : UInt32 := .ofInt (Int64.ofInt fraction.toNat * 1000000000 / 0xffffffff).toInt

/-- The end of `SntpClient`; there is no time for a timestamp whose seconds are 0. -/
def receive (ts : TransTS) : Option TimeSpec :=
  if ts.dwInteger = 0 then none else some ⟨swap32 ts.dwInteger - dwInterval, nanoSec (swap32 ts.dwFractionl)⟩

/-- The form of the subtraction that the comment says is the same. -/
def branching (dwSec : UInt32) : UInt32 :=
  if dwSec < dwInterval then dwSec + (0xffffffff - dwInterval + 1) else dwSec - dwInterval

/-! ### The instants -/

/-- The days of a year. -/
def daysOfYear (year : Nat) : Nat := if year % 4 = 0 ∧ (year % 100 ≠ 0 ∨ year % 400 = 0) then 366 else 365

/-- The NTP seconds of an instant that is `t` seconds after the start of 2000. -/
def ntpSeconds (t : Nat) : Nat := ((List.range' 1900 100).map daysOfYear).sum * 86400 + t

/-- The timestamp of that instant and a fraction. -/
def timestamp (t : Nat) (fraction : UInt32) : TransTS := ⟨swap32 (.ofNat (ntpSeconds t)), swap32 fraction⟩

/-- The seconds are those since 2000 by both forms, and the nanoseconds are in range and not below those of a lesser fraction. -/
def Converts (t : Nat) (fraction : UInt32) : Prop :=
  ∃ r, receive (timestamp t fraction) = some r ∧ r.dwSec.toNat = t ∧ branching (.ofNat (ntpSeconds t)) = r.dwSec ∧
    r.dwNanoSec < 1000000000 ∧
    ∀ lesser ≤ fraction, ∃ r', receive (timestamp t lesser) = some r' ∧ r'.dwNanoSec ≤ r.dwNanoSec

section
variable {t : Nat} {f g : UInt32}

theorem ntpSeconds_eq (t : Nat) : ntpSeconds t = dwInterval.toNat + t := by
  have hdays : ((List.range' 1900 100).map daysOfYear).sum * 86400 = dwInterval.toNat := by decide +kernel
  rw [ntpSeconds, hdays]

theorem toNat_ofNat_ntpSeconds (t : Nat) : (UInt32.ofNat (ntpSeconds t)).toNat = (3155673600 + t) % 2 ^ 32 := by
  rw [UInt32.toNat_ofNat', ntpSeconds_eq]
  rfl

/-- The subtraction wraps with the era. -/
theorem toNat_sub_dwInterval (ht : t < 2 ^ 32) : (UInt32.ofNat (ntpSeconds t) - dwInterval).toNat = t := by
  have hinterval : dwInterval.toNat = 3155673600 := rfl
  rw [UInt32.toNat_sub, toNat_ofNat_ntpSeconds, hinterval]
  omega

theorem branching_eq (s : UInt32) : branching s = s - dwInterval := by
  have hs := s.toNat_lt
  have hinterval : dwInterval.toNat = 3155673600 := rfl
  have hrest : (0xffffffff - dwInterval + 1 : UInt32).toNat = 1139293696 := rfl
  unfold branching
  split
  · next h =>
    have hlt := UInt32.lt_iff_toNat_lt.mp h
    rw [← UInt32.toNat_inj, UInt32.toNat_add, UInt32.toNat_sub, hrest]
    omega
  · rfl

/-! ### The fraction -/

theorem toNat_nanoSec (f : UInt32) : (nanoSec f).toNat = f.toNat * 1000000000 / 4294967295 := by
  have hf := f.toNat_lt
  have hfrac : (Int64.ofInt f.toNat).toInt = f.toNat := Int64.toInt_ofInt_of_le (by omega) (by omega)
  have hmul : (Int64.ofInt f.toNat * 1000000000).toInt = (f.toNat * 1000000000 : Nat) := by
    rw [Int64.toInt_mul, hfrac]
    change ((f.toNat : Int) * 1000000000).bmod (2 ^ 64) = _
    rw [Int.bmod_eq_of_le (by omega) (by omega)]
    omega
  have hdiv : (Int64.ofInt f.toNat * 1000000000 / 0xffffffff).toInt = (f.toNat * 1000000000 / 4294967295 : Nat) := by
    rw [Int64.toInt_div, hmul]
    change (((f.toNat * 1000000000 / 4294967295 : Nat) : Int)).bmod (2 ^ 64) = _
    exact Int.bmod_eq_of_le (by omega) (by omega)
  rw [nanoSec, hdiv, UInt32.ofInt, UInt32.toNat_ofNat']
  omega

theorem nanoSec_mono (h : g ≤ f) : nanoSec g ≤ nanoSec f := by
  have hle := UInt32.le_iff_toNat_le.mp h
  rw [UInt32.le_iff_toNat_le, toNat_nanoSec, toNat_nanoSec]
  omega

theorem nanoSec_lt_iff : nanoSec f < 1000000000 ↔ f ≠ 0xffffffff := by
  have hf := f.toNat_lt
  have hmax : (0xffffffff : UInt32).toNat = 4294967295 := rfl
  have hbound : (1000000000 : UInt32).toNat = 1000000000 := rfl
  rw [UInt32.lt_iff_toNat_lt, toNat_nanoSec, ne_eq, ← UInt32.toNat_inj, hmax, hbound]
  omega

/-! ### The timestamps -/

theorem receive_timestamp (h : ntpSeconds t % 2 ^ 32 ≠ 0) (f : UInt32) :
    receive (timestamp t f) = some ⟨.ofNat (ntpSeconds t) - dwInterval, nanoSec f⟩ := by
  have hne : swap32 (.ofNat (ntpSeconds t)) ≠ 0 := by
    intro hzero
    have hswap := congrArg swap32 hzero
    rw [swap32_swap32, ← UInt32.toNat_inj, UInt32.toNat_ofNat'] at hswap
    exact h hswap
  rw [receive, timestamp, if_neg hne, swap32_swap32, swap32_swap32]

/-- An instant whose field of seconds is not 0 is converted rightly exactly when its fraction is not the greatest one. -/
theorem converts_iff (ht : t < 2 ^ 32) (h : ntpSeconds t % 2 ^ 32 ≠ 0) : Converts t f ↔ f ≠ 0xffffffff := by
  have hreceive := receive_timestamp h
  constructor
  · rintro ⟨r, hr, -, -, hlt, -⟩
    rw [hreceive] at hr
    cases hr
    exact nanoSec_lt_iff.mp hlt
  · intro hf
    refine ⟨_, hreceive f, toNat_sub_dwInterval ht, branching_eq _, nanoSec_lt_iff.mpr hf, fun lesser hle => ?_⟩
    exact ⟨_, hreceive lesser, nanoSec_mono hle⟩

/-- A second after the rollover of 2036. -/
theorem converts_2036 : Converts 1139293697 0x80000000 := (converts_iff (by decide) (by decide +kernel)).mpr (by decide)

/-- The greatest fraction of the first second of 2000. -/
theorem converts_counterexample : ntpSeconds 0 % 2 ^ 32 ≠ 0 ∧
    receive (timestamp 0 0xffffffff) = some ⟨0, 1000000000⟩ ∧ ¬ Converts 0 0xffffffff := by
  have hreceive : receive (timestamp 0 0xffffffff) = some ⟨0, 1000000000⟩ := by decide +kernel
  refine ⟨by decide +kernel, hreceive, ?_⟩
  rintro ⟨r, hr, -, -, hlt, -⟩
  rw [hreceive] at hr
  cases hr
  exact absurd hlt (by decide)

end

end Recbcsrv.NtpTime
