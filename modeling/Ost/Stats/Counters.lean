import Ost.Iscsi.Bytes
import Ost.Prog.Basic
import Ost.Util.Iov

/-!
# The counters of a device

`OST_DEVICE_COUNTERS_T` of `ost.c`, with the functions that count a command when it arrives and when
it is completed.  Both look at the CDB for themselves.

A distance between two commands is the `int` that a difference of 64 bits is cut to, and `abs` has
no value for the least `int`.  The variable in which the second function puts the length has four
bytes, and it stores two of them; the others are whatever was there.
-/

namespace Ost.Stats

open Ost.Iscsi Ost.Util Ost.Prog

/-- `OST_DEVICE_COUNTERS_T`, without its lock and its name. -/
structure OstDeviceCounters where
  ops : UInt64
  opsWr : UInt64
  opsRd : UInt64
  opsBidi : UInt64
  opsOther : UInt64
  outstanding : UInt64
  outstandingWr : UInt64
  outstandingRd : UInt64
  outstandingBidi : UInt64
  outstandingOther : UInt64
  depths : UInt64
  depthsWr : UInt64
  depthsRd : UInt64
  depthsBidi : UInt64
  depthsOther : UInt64
  lats : UInt64
  latsWr : UInt64
  latsRd : UInt64
  latsBidi : UInt64
  latsOther : UInt64
  lastLba : UInt64
  lastLbaWr : UInt64
  lastLbaRd : UInt64
  jumps : UInt64
  jumpsWr : UInt64
  jumpsRd : UInt64
  blocks : UInt64
  blocksWr : UInt64
  blocksRd : UInt64
  bytes : UInt64
deriving DecidableEq, Repr

/-- The counters of a device before the first command: they are static. -/
def OstDeviceCounters.zero : OstDeviceCounters :=
  ⟨0, 0, 0, 0, 0, 0, 0, 0, 0, 0, 0, 0, 0, 0, 0, 0, 0, 0, 0, 0, 0, 0, 0, 0, 0, 0, 0, 0, 0, 0⟩

/-- A function on the counters. -/
abbrev CountersProg (α : Type) : Type := Prog Halt OstDeviceCounters α

/-- `ost_reset_counters`: the outstanding commands stay. -/
def ostResetCounters : CountersProg PUnit := modify fun c =>
  { OstDeviceCounters.zero with
    outstanding := c.outstanding, outstandingWr := c.outstandingWr
    outstandingRd := c.outstandingRd, outstandingBidi := c.outstandingBidi
    outstandingOther := c.outstandingOther }

/-- `abs` of a difference that is cut to an `int`, as a number of 64 bits. -/
def absInt (x : UInt64) : CountersProg UInt64 :=
  let low := x.toUInt32
  if low = 0x80000000 then halt .fault
  else return (if low < 0x80000000 then low else -low).toUInt64

/-- `ost_update_counters_pre`. -/
def ostUpdateCountersPre (writing : Bool) (lba : UInt64) (len : UInt32) : CountersProg Int := do
  modify fun c =>
    { c with outstanding := c.outstanding + 1, depths := c.depths + (c.outstanding + 1) }
  let jump ← absInt (lba - (← get).lastLba)
  modify fun c => { c with jumps := c.jumps + jump, lastLba := lba + len.toUInt64 }
  if writing then
    modify fun c =>
      { c with
        outstandingWr := c.outstandingWr + 1, depthsWr := c.depthsWr + (c.outstandingWr + 1) }
    let jump ← absInt (lba - (← get).lastLbaWr)
    modify fun c => { c with jumpsWr := c.jumpsWr + jump, lastLbaWr := lba + len.toUInt64 }
  else
    modify fun c =>
      { c with
        outstandingRd := c.outstandingRd + 1, depthsRd := c.depthsRd + (c.outstandingRd + 1) }
    let jump ← absInt (lba - (← get).lastLbaRd)
    modify fun c => { c with jumpsRd := c.jumpsRd + jump, lastLbaRd := lba + len.toUInt64 }
  return 0

/-- Whether the CDB is that of a `WRITE_10`. -/
def isWrite (cdb : Bytes) : Bool := byte cdb 0 = 0x2a

/-- Whether the CDB is that of a `READ_10`. -/
def isRead (cdb : Bytes) : Bool := byte cdb 0 = 0x28

/-- The transfer length in the CDB. -/
def cdbLength (cdb : Bytes) : Nat := be16 cdb 7

/-- `ost_update_counters_pre_via_cdb`. -/
def ostUpdateCountersPreViaCdb (cdb : Bytes) : CountersProg Int := do
  if isWrite cdb || isRead cdb then
    ostUpdateCountersPre (isWrite cdb) (be32 cdb 2).toUInt64 (UInt32.ofNat (cdbLength cdb))
  else
    modify fun c =>
      { c with
        ops := c.ops + 1, outstanding := c.outstanding + 1, depths := c.depths + (c.outstanding + 1)
        opsOther := c.opsOther + 1, outstandingOther := c.outstandingOther + 1
        depthsOther := c.depthsOther + (c.outstandingOther + 1) }
    return 0

/-- `ost_update_counters_post`. -/
def ostUpdateCountersPost (writing : Bool) (len lat : UInt32) : CountersProg Int := do
  modify fun c =>
    { c with
      ops := c.ops + 1, outstanding := c.outstanding - 1, blocks := c.blocks + len.toUInt64
      lats := c.lats + lat.toUInt64 }
  if writing then
    modify fun c =>
      { c with
        opsWr := c.opsWr + 1, latsWr := c.latsWr + lat.toUInt64
        outstandingWr := c.outstandingWr - 1, blocksWr := c.blocksWr + len.toUInt64 }
  else
    modify fun c =>
      { c with
        opsRd := c.opsRd + 1, latsRd := c.latsRd + lat.toUInt64
        outstandingRd := c.outstandingRd - 1, blocksRd := c.blocksRd + len.toUInt64 }
  return 0

/-- `ost_update_counters_post_via_cdb`.  `stale` is what the upper half of its variable `len`
holds. -/
def ostUpdateCountersPostViaCdb (cdb : Bytes) (lat : UInt32) (stale : UInt16) :
    CountersProg Int := do
  if isWrite cdb || isRead cdb then
    ostUpdateCountersPost (isWrite cdb) (UInt32.ofNat (stale.toNat * 65536 + cdbLength cdb)) lat
  else
    modify fun c =>
      { c with
        outstanding := c.outstanding - 1, lats := c.lats + lat.toUInt64
        latsOther := c.latsOther + lat.toUInt64, outstandingOther := c.outstandingOther - 1 }
    return 0

end Ost.Stats
