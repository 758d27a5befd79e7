import Mathlib.Data.List.Basic
import Mathlib.Data.Option.Basic

set_option autoImplicit false

/-!
# The Ethernet PHY

`rt_stm32_eth_init` and `phy_linkchange` of `drv_eth.c`, built for the LAN8720A. A read over MDIO that
fails leaves its variable as it was.

* `Driver`: the address of the PHY, the cached link, the notifications of `eth_device_linkchange`;
* `Mdio`, `scanFrom`, `resetWait`, `rtStm32EthInit`: an initialisation;
* `Poll`, `speedNew`, `speedOf`, `modeOf`, `phyLinkchange`: a poll;
* `Event`, `step`: both, in any order; `constantPhy`: a bus to try them on.
-/

namespace PipeGallery.Phy

/-- `PHY_BASIC_STATUS_REG`. -/
def phyBasicStatusReg : BitVec 32 := 0x01
def phyResetMask : BitVec 32 := 1 <<< 15
def phyLinkedStatusMask : BitVec 32 := 1 <<< 2
def phyAutonegoCompleteMask : BitVec 32 := 1 <<< 5
def phy100MMask : BitVec 32 := 1 <<< 3
def phyFullDuplexMask : BitVec 32 := 1 <<< 4

/-- The bits of `phy_speed`. -/
def phyLink : BitVec 8 := 1 <<< 0
def phy100M : BitVec 8 := 1 <<< 1
def phyFullDuplex : BitVec 8 := 1 <<< 2

/-- `RT_EOK`, `RT_ERROR` and `RT_ETIMEOUT`. -/
inductive Status where
  | eok
  | error
  | etimeout
  deriving DecidableEq, Repr

/-- `ETH_SPEED_10M` and `ETH_SPEED_100M`. -/
inductive Speed where
  | m10
  | m100
  deriving DecidableEq, Repr

/-- `ETH_HALFDUPLEX_MODE` and `ETH_FULLDUPLEX_MODE`. -/
inductive Mode where
  | half
  | full
  deriving DecidableEq, Repr

/-- `PHY_ADDR`, the static `phy_speed` of `phy_linkchange`, the fields of `stm32_eth_device`, and the
booleans passed to `eth_device_linkchange`, oldest first. -/
structure Driver where
  phyAddr : ℕ := 0x1F
  phySpeed : BitVec 8 := 0
  ethSpeed : Speed := .m100
  ethMode : Mode := .full
  calls : List Bool := []
  deriving DecidableEq, Repr

/-- The link state as last reported, down before the first report. -/
def Driver.reported (s : Driver) : Bool := s.calls.getLastD false

/-! ## Initialisation -/

/-- What an initialisation meets: the special-modes register at each address, whether the reset is
written, the special-modes register after that, the ticks and the basic control register at each
iteration of the wait, and the basic control register after the wait. -/
structure Mdio where
  scan : ℕ → Option (BitVec 32)
  reset : Bool
  modes : Option (BitVec 32)
  tickstart : BitVec 32
  tick : ℕ → BitVec 32
  control : ℕ → Option (BitVec 32)
  last : Option (BitVec 32)

/-- The scan of the addresses `is`: the address found, `regvalue` and `status`. -/
def scanFrom (read : ℕ → Option (BitVec 32)) :
    List ℕ → BitVec 32 → Status → Option ℕ × BitVec 32 × Status
  | [], regvalue, status => (none, regvalue, status)
  | i :: is, regvalue, status =>
    match read i with
    | none => scanFrom read is regvalue .error
    | some v =>
      if (v &&& phyBasicStatusReg).toNat = i then (some i, v, .eok) else scanFrom read is v status

/-- The wait for the reset, from its iteration `k`; `none` when it needs more iterations than `fuel`. -/
def resetWait (h : Mdio) : ℕ → ℕ → BitVec 32 → Status → Option (BitVec 32 × Status)
  | 0, _, _, _ => none
  | fuel + 1, k, regvalue, status =>
    if regvalue &&& phyResetMask = 0 then some (regvalue, status)
    else if (h.tick k - h.tickstart).toNat ≤ 500 then
      match h.control k with
      | none => some (regvalue, .error)
      | some v => resetWait h fuel (k + 1) v status
    -- the timeout is noted, and the loop goes on
    else resetWait h fuel (k + 1) regvalue .etimeout

/-- `rt_stm32_eth_init`, as far as the PHY is concerned. -/
def rtStm32EthInit (fuel : ℕ) (h : Mdio) (s : Driver) : Option (Status × Driver) :=
  match scanFrom h.scan (List.range (s.phyAddr + 1)) 0 .eok with
  | (found, regvalue, status) =>
    (if h.reset then resetWait h fuel 0 (h.modes.getD regvalue) status
      else some (regvalue, status)).map fun r =>
        match h.last with
        | some _ =>
          (r.2, { s with phyAddr := found.getD s.phyAddr, calls := s.calls ++ [true] })
        | none => (.error, { s with phyAddr := found.getD s.phyAddr })

/-! ## Polls -/

/-- What a poll reads: the basic status register, the word on the stack in its place if that fails,
and the status register of the LAN8720A. -/
structure Poll where
  bsr : Option (BitVec 32)
  stack : BitVec 32 := 0
  sr : Option (BitVec 32)
  deriving DecidableEq, Repr

/-- `status`. -/
def Poll.status (r : Poll) : BitVec 32 := r.bsr.getD r.stack

/-- `SR`. -/
def Poll.srValue (r : Poll) : BitVec 32 := r.sr.getD 0

/-- `phy_speed_new`. -/
def speedNew (r : Poll) : BitVec 8 :=
  if r.status &&& (phyAutonegoCompleteMask ||| phyLinkedStatusMask) ≠ 0 then
    phyLink ||| (if r.srValue &&& phy100MMask ≠ 0 then phy100M else 0) |||
      (if r.srValue &&& phyFullDuplexMask ≠ 0 then phyFullDuplex else 0)
  else 0

/-- `ETH_Speed` of a `phy_speed`. -/
def speedOf (phySpeed : BitVec 8) : Speed := if phySpeed &&& phy100M ≠ 0 then .m100 else .m10

/-- `ETH_Mode` of a `phy_speed`. -/
def modeOf (phySpeed : BitVec 8) : Mode := if phySpeed &&& phyFullDuplex ≠ 0 then .full else .half

/-- `phy_linkchange`. -/
def phyLinkchange (r : Poll) (s : Driver) : Driver :=
  if s.phySpeed ≠ speedNew r then
    if speedNew r &&& phyLink ≠ 0 then
      { s with
        phySpeed := speedNew r
        ethSpeed := speedOf (speedNew r)
        ethMode := modeOf (speedNew r)
        calls := s.calls ++ [true] }
    else { s with phySpeed := speedNew r, calls := s.calls ++ [false] }
  else s

/-! ## Both -/

/-- A run of `rt_stm32_eth_init`, or of `phy_linkchange`. -/
inductive Event where
  | init (fuel : ℕ) (h : Mdio)
  | poll (r : Poll)

/-- Not defined on an initialisation that does not end. -/
def step (s : Driver) : Event → Option Driver
  | .init fuel h => (rtStm32EthInit fuel h s).map Prod.snd
  | .poll r => some (phyLinkchange r s)

/-- A PHY that reads `v` everywhere, on a clock that stops after 1000 ticks. -/
def constantPhy (v : BitVec 32) : Mdio where
  scan := fun _ => some v
  reset := true
  modes := some v
  tickstart := 0
  tick := fun k => BitVec.ofNat 32 (min k 1000)
  control := fun _ => some v
  last := some v

end PipeGallery.Phy
