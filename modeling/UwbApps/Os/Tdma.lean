import Mathlib.Data.Nat.Notation

/-!
# Slots

What the slot callbacks of the TDMA applications have from the libraries, and what they have them
do.  `Tdma` is a slot's times and the radio's timeouts; `RadioCall` is a call, of which some start a
range measurement and some open the receiver.
-/

set_option autoImplicit false

namespace UwbApps.Os

/-- What the callbacks take from the slots and the radio. -/
structure Tdma where
  nslots : BitVec 16
  /-- `ccp->period`. -/
  period : BitVec 32
  tdmaTxSlotStart : BitVec 16 → BitVec 64
  tdmaRxSlotStart : BitVec 16 → BitVec 64
  /-- `uwb_phy_frame_duration` and `nrng->config.rx_timeout_delay`. -/
  nrngTimeout : BitVec 16
  /-- `uwb_wcs_local_to_master64`. -/
  localToMaster : BitVec 64 → BitVec 64

/-- `3*ccp->period/tdma->nslots/4`. -/
def Tdma.timeout (T : Tdma) : BitVec 32 := 3 * T.period / T.nslots.setWidth 32 / 4

/-- A start time for a delayed transmission. -/
def Tdma.dxTime (T : Tdma) (idx : BitVec 16) : BitVec 64 :=
  T.tdmaTxSlotStart idx &&& 0xFFFFFFFFFE00

/-- What a slot callback does. -/
inductive RadioCall
  | uwbPhyForcetrxoff
  | uwbMacConfig
  | uwbTxrfConfig
  /-- `uwb_nmgr_process_tx_queue`, with something in the queue. -/
  | nmgrTx (start : BitVec 64)
  | nmgrUwbListen (start : BitVec 64) (timeout : BitVec 32)
  | nrngRequestDelayStart (dxTime : BitVec 64) (slotMask : BitVec 32)
  | uwbSetDelayStart (start : BitVec 64)
  | uwbSetRxTimeout (timeout : BitVec 32)
  | nrngListen
  | rtdoaRequest (dxTime : BitVec 64)
  | rtdoaListen (dxTime : BitVec 64) (timeout : BitVec 32)
  | rtdoaBackhaulSetTs (ts : BitVec 64)
  | rtdoaBackhaulSend (dxTime : BitVec 64)
deriving DecidableEq

/-- The call is the start of a range measurement. -/
def RadioCall.ranges : RadioCall → Bool
  | .nrngRequestDelayStart _ _ | .rtdoaRequest _ => true
  | _ => false

/-- The call sends a frame of newtmgr. -/
def RadioCall.sendsNmgr : RadioCall → Bool
  | .nmgrTx _ => true
  | _ => false

/-- The call opens the receiver for a frame. -/
def RadioCall.listens : RadioCall → Bool
  | .nmgrUwbListen _ _ | .nrngListen | .rtdoaListen _ _ => true
  | _ => false

end UwbApps.Os
