import Mathlib.Algebra.Ring.Nat
import Mathlib.Data.Fin.Basic
import Mathlib.Logic.Function.Basic
import Zouipocar.Common.Fix

/-!
# The pins

`pin.c` finds for a pin the registers of its port and its bit in them, `bit.c`
changes the bit. The nine registers are 24 pins that do not know of each other:
any calls on any pins change each pin as if it were alone. The exception is the
value `bit_toggle` returns: it reads the bit whose number is the mask.
-/

namespace Zouipocar
set_option autoImplicit false

inductive PortRegister
  | ddrb | ddrc | ddrd
  | portb | portc | portd
  | pinb | pinc | pind
deriving DecidableEq

abbrev Ports := PortRegister → BitVec 8

/-- `B0` to `B7`, `C0` to `C7`, `D0` to `D7`. -/
abbrev Pin := Fin 24

def Pin.b7 : Pin := 7

def Pin.c7 : Pin := 15

/-! ## `bit.c` -/

/-- `_BV(bit)`, an `int` of 16 bits: shifting into its sign is undefined. -/
def bv (bit : BitVec 8) : Option (BitVec 16) := if bit.toNat < 15 then some (1#16 <<< bit.toNat) else none

section Bits

variable (reg : PortRegister) (bit : BitVec 8) (m : Ports)

def bitSet : Option Ports := do
  let mask ← bv bit
  return Function.update m reg (((m reg).zeroExtend 16 ||| mask).truncate 8)

def bitClear : Option Ports := do
  let mask ← bv bit
  return Function.update m reg (((m reg).zeroExtend 16 &&& ~~~mask).truncate 8)

def bitWrite (state : BitVec 8) : Option Ports := if state = 0 then bitClear reg bit m else bitSet reg bit m

def bitRead : Option (BitVec 8) := do
  let mask ← bv bit
  return (((m reg).zeroExtend 16 &&& mask) >>> bit.toNat).truncate 8

/-- `return bit_read(reg, _BV(bit));` -/
def bitToggle : Option (BitVec 8 × Ports) := do
  let mask ← bv bit
  let m := Function.update m reg (((m reg).zeroExtend 16 ^^^ mask).truncate 8)
  let value ← bitRead reg (mask.truncate 8) m
  return (value, m)

end Bits

/-! ## `pin.c` -/

def pinGetDirectionReg (pin : Pin) : PortRegister :=
  if pin ≤ Pin.b7 then .ddrb else if pin ≤ Pin.c7 then .ddrc else .ddrd

def pinGetDataReg (pin : Pin) : PortRegister :=
  if pin ≤ Pin.b7 then .portb else if pin ≤ Pin.c7 then .portc else .portd

def pinGetInputReg (pin : Pin) : PortRegister :=
  if pin ≤ Pin.b7 then .pinb else if pin ≤ Pin.c7 then .pinc else .pind

def pinGetAddr (pin : Pin) : BitVec 8 :=
  if pin ≤ Pin.b7 then BitVec.ofNat 8 pin.val
  else if pin ≤ Pin.c7 then BitVec.ofNat 8 (pin.val - 8)
  else BitVec.ofNat 8 (pin.val - 16)

def pinConfigure (pin : Pin) (direction : BitVec 8) (m : Ports) : Option Ports :=
  bitWrite (pinGetDirectionReg pin) (pinGetAddr pin) m direction

def pinSet (pin : Pin) (m : Ports) : Option Ports := bitSet (pinGetDataReg pin) (pinGetAddr pin) m

def pinClear (pin : Pin) (m : Ports) : Option Ports := bitClear (pinGetDataReg pin) (pinGetAddr pin) m

def pinToggle (pin : Pin) (m : Ports) : Option (BitVec 8 × Ports) :=
  bitToggle (pinGetDataReg pin) (pinGetAddr pin) m

def pinWrite (pin : Pin) (state : BitVec 8) (m : Ports) : Option Ports :=
  bitWrite (pinGetDataReg pin) (pinGetAddr pin) m state

def pinRead (pin : Pin) (m : Ports) : Option (BitVec 8) := bitRead (pinGetInputReg pin) (pinGetAddr pin) m

/-! ## `mc60.c` -/

def Pin.pwrkey : Pin := 23

def Pin.gsmon : Pin := 2

def Pin.led : Pin := 5

def setupPins (m : Ports) : Option Ports := do
  let m ← pinConfigure Pin.pwrkey 1 m
  let m ← pinConfigure Pin.gsmon 1 m
  pinConfigure Pin.led 1 m

/-! ## One bit -/

theorem pinGetAddr_lt : ∀ pin : Pin, (pinGetAddr pin).toNat < 8 := by decide

/-- Two pins share no bit. -/
theorem pin_eq : ∀ p q : Pin, pinGetDataReg p = pinGetDataReg q → pinGetAddr p = pinGetAddr q → p = q := by decide

theorem directionReg_eq : ∀ p q : Pin, pinGetDirectionReg p = pinGetDirectionReg q ↔ pinGetDataReg p = pinGetDataReg q := by
  decide

theorem directionReg_ne : ∀ p q : Pin, pinGetDirectionReg p ≠ pinGetDataReg q := by decide

/-- Only this bit of this register changes, and how. -/
def Alters (m m' : Ports) (reg : PortRegister) (bit : BitVec 8) (change : Bool → Bool) : Prop :=
  ∀ r i, (m' r).getLsbD i =
    if r = reg ∧ i = bit.toNat then change ((m r).getLsbD i) else (m r).getLsbD i

section Bits

variable {reg : PortRegister} {bit : BitVec 8} {m : Ports}

theorem bv_of_lt (small : bit.toNat < 15) : bv bit = some (1#16 <<< bit.toNat) := if_pos small

theorem getLsbD_mask (small : bit.toNat < 15) (i : Nat) : (1#16 <<< bit.toNat).getLsbD i = decide (i = bit.toNat) := by
  rw [BitVec.getLsbD_shiftLeft, BitVec.getLsbD_one]
  by_cases same : i = bit.toNat
  · simp [same]
    omega
  · simp [same]
    omega

theorem getLsbD_wide (v : BitVec 8) (i : Nat) : (v.zeroExtend 16).getLsbD i = v.getLsbD i := by
  rw [BitVec.zeroExtend, BitVec.getLsbD_setWidth]
  by_cases inside : i < 16
  · rw [decide_eq_true inside, Bool.true_and]
  · rw [decide_eq_false inside, Bool.false_and, v.getLsbD_of_ge i (by omega)]

/-- A register computed in 16 bits. -/
theorem alters_update {change : Bool → Bool} {wide : BitVec 16} (inside : bit.toNat < 8)
    (bits : ∀ i, i < 8 → wide.getLsbD i =
      if i = bit.toNat then change ((m reg).getLsbD i) else (m reg).getLsbD i) :
    Alters m (Function.update m reg (wide.truncate 8)) reg bit change := by
  intro r i
  by_cases here : r = reg
  · subst here
    rw [Function.update_self, BitVec.truncate_eq_setWidth, BitVec.getLsbD_setWidth]
    by_cases low : i < 8
    · rw [decide_eq_true low, Bool.true_and, bits i low]
      simp
    · rw [decide_eq_false low, Bool.false_and, if_neg (by omega), (m r).getLsbD_of_ge i (by omega)]
  · rw [Function.update_of_ne here, if_neg fun both => here both.1]

theorem bitSet_alters (inside : bit.toNat < 8) :
    ∃ m', bitSet reg bit m = some m' ∧ Alters m m' reg bit fun _ => true := by
  refine ⟨_, by rw [bitSet, bv_of_lt (by omega)]; rfl, alters_update inside fun i _ => ?_⟩
  rw [BitVec.getLsbD_or, getLsbD_wide, getLsbD_mask (by omega)]
  by_cases here : i = bit.toNat <;> simp [here]

theorem bitClear_alters (inside : bit.toNat < 8) :
    ∃ m', bitClear reg bit m = some m' ∧ Alters m m' reg bit fun _ => false := by
  refine ⟨_, by rw [bitClear, bv_of_lt (by omega)]; rfl, alters_update inside fun i low => ?_⟩
  rw [BitVec.getLsbD_and, BitVec.getLsbD_not, getLsbD_wide, getLsbD_mask (by omega)]
  by_cases here : i = bit.toNat
  · simp [here]
  · have wide : i < 16 := by omega
    simp [here, wide]

theorem bitWrite_alters (inside : bit.toNat < 8) (state : BitVec 8) :
    ∃ m', bitWrite reg bit m state = some m' ∧ Alters m m' reg bit fun _ => decide (state ≠ 0) := by
  unfold bitWrite
  by_cases low : state = 0
  · rw [if_pos low, low]
    exact bitClear_alters inside
  · rw [if_neg low, decide_eq_true low]
    exact bitSet_alters inside

/-- Reading gives the bit as a number. -/
theorem bitRead_eq (small : bit.toNat < 15) :
    bitRead reg bit m = some (if (m reg).getLsbD bit.toNat then 1 else 0) := by
  rw [bitRead, bv_of_lt small]
  refine congrArg some (BitVec.eq_of_getLsbD_eq fun i low => ?_)
  rw [BitVec.truncate_eq_setWidth, BitVec.getLsbD_setWidth, BitVec.getLsbD_ushiftRight, BitVec.getLsbD_and,
    getLsbD_wide, getLsbD_mask small, decide_eq_true low, Bool.true_and]
  by_cases first : i = 0
  · subst first
    cases (m reg).getLsbD bit.toNat <;> simp
  · have above : bit.toNat + i ≠ bit.toNat := by omega
    rw [decide_eq_false above, Bool.and_false]
    cases (m reg).getLsbD bit.toNat <;> simp [first]

theorem bitRead_undefined (large : ¬ bit.toNat < 15) : bitRead reg bit m = none := by
  rw [bitRead, bv, if_neg large]
  rfl

/-- The mask of a bit, as the number of a bit. -/
def maskBit (bit : BitVec 8) : BitVec 8 := (1#16 <<< bit.toNat).truncate 8

theorem bitToggle_alters (inside : bit.toNat < 8) : ∃ m', Alters m m' reg bit not ∧
    bitToggle reg bit m = (bitRead reg (maskBit bit) m').map fun value => (value, m') := by
  refine ⟨Function.update m reg (((m reg).zeroExtend 16 ^^^ (1#16 <<< bit.toNat)).truncate 8),
    alters_update inside fun i _ => ?_, ?_⟩
  · rw [BitVec.getLsbD_xor, getLsbD_wide, getLsbD_mask (by omega)]
    by_cases here : i = bit.toNat <;> simp [here]
  · rw [bitToggle, bv_of_lt (by omega)]
    exact Option.map_eq_bind.symm

end Bits

/-! ## Every pin on its own -/

/-- What a pin is set to. -/
structure PinState where
  output : Bool
  high : Bool

/-- All pins, as the registers have them. -/
def settings (m : Ports) (pin : Pin) : PinState where
  output := (m (pinGetDirectionReg pin)).getLsbD (pinGetAddr pin).toNat
  high := (m (pinGetDataReg pin)).getLsbD (pinGetAddr pin).toNat

inductive PinCall
  | configure (direction : BitVec 8)
  | set
  | clear
  | toggle
  | write (state : BitVec 8)
deriving DecidableEq

namespace PinCall

/-- The call, without what it returns. -/
def run (pin : Pin) (m : Ports) : PinCall → Option Ports
  | configure direction => pinConfigure pin direction m
  | set => pinSet pin m
  | clear => pinClear pin m
  | toggle => (pinToggle pin m).map Prod.snd
  | write state => pinWrite pin state m

/-- What it does to a pin. -/
def effect : PinCall → PinState → PinState
  | configure direction, p => { p with output := decide (direction ≠ 0) }
  | set, p => { p with high := true }
  | clear, p => { p with high := false }
  | toggle, p => { p with high := !p.high }
  | write state, p => { p with high := decide (state ≠ 0) }

end PinCall

/-- One change of a direction. -/
theorem settings_direction {m m' : Ports} {pin : Pin} {change : Bool → Bool}
    (alters : Alters m m' (pinGetDirectionReg pin) (pinGetAddr pin) change) :
    settings m' = Function.update (settings m) pin
      { settings m pin with output := change (settings m pin).output } := by
  funext q
  by_cases same : q = pin
  · subst same
    rw [Function.update_self, settings, settings, alters, alters, if_pos ⟨rfl, rfl⟩,
      if_neg fun both => directionReg_ne q q both.1.symm]
  · have apart : ¬ (pinGetDirectionReg q = pinGetDirectionReg pin ∧ (pinGetAddr q).toNat = (pinGetAddr pin).toNat) := by
      rintro ⟨reg, addr⟩
      exact same (pin_eq q pin ((directionReg_eq q pin).mp reg) (BitVec.eq_of_toNat_eq addr))
    have other : pinGetDataReg q ≠ pinGetDirectionReg pin := (directionReg_ne pin q).symm
    rw [Function.update_of_ne same, settings, settings, alters, alters, if_neg apart, if_neg fun both => other both.1]

/-- One change of a level. -/
theorem settings_data {m m' : Ports} {pin : Pin} {change : Bool → Bool}
    (alters : Alters m m' (pinGetDataReg pin) (pinGetAddr pin) change) :
    settings m' = Function.update (settings m) pin { settings m pin with high := change (settings m pin).high } := by
  funext q
  by_cases same : q = pin
  · subst same
    rw [Function.update_self, settings, settings, alters, alters, if_neg fun both => directionReg_ne q q both.1,
      if_pos ⟨rfl, rfl⟩]
  · have apart : ¬ (pinGetDataReg q = pinGetDataReg pin ∧ (pinGetAddr q).toNat = (pinGetAddr pin).toNat) := by
      rintro ⟨reg, addr⟩
      exact same (pin_eq q pin reg (BitVec.eq_of_toNat_eq addr))
    rw [Function.update_of_ne same, settings, settings, alters, alters, if_neg apart,
      if_neg fun both => directionReg_ne q pin both.1]

theorem maskBit_eq : ∀ pin : Pin, (maskBit (pinGetAddr pin)).toNat = 2 ^ (pinGetAddr pin).toNat := by decide

/-- The mask is a bit that can be read for the lower half of a register. -/
theorem maskBit_lt : ∀ pin : Pin, (maskBit (pinGetAddr pin)).toNat < 15 ↔ (pinGetAddr pin).toNat < 4 := by decide

/-- **A call changes its pin alone; toggling in the upper half is undefined.** -/
theorem PinCall.run_eq (call : PinCall) (pin : Pin) (m : Ports) :
    (call = .toggle ∧ 4 ≤ (pinGetAddr pin).toNat ∧ call.run pin m = none) ∨
      (¬ (call = .toggle ∧ 4 ≤ (pinGetAddr pin).toNat) ∧ ∃ m', call.run pin m = some m' ∧
        settings m' = Function.update (settings m) pin (call.effect (settings m pin))) := by
  have inside := pinGetAddr_lt pin
  cases call with
  | configure direction =>
    obtain ⟨m', ran, alters⟩ := @bitWrite_alters (pinGetDirectionReg pin) _ m inside direction
    exact .inr ⟨by simp, m', ran, settings_direction alters⟩
  | set =>
    obtain ⟨m', ran, alters⟩ := @bitSet_alters (pinGetDataReg pin) _ m inside
    exact .inr ⟨by simp, m', ran, settings_data alters⟩
  | clear =>
    obtain ⟨m', ran, alters⟩ := @bitClear_alters (pinGetDataReg pin) _ m inside
    exact .inr ⟨by simp, m', ran, settings_data alters⟩
  | write state =>
    obtain ⟨m', ran, alters⟩ := @bitWrite_alters (pinGetDataReg pin) _ m inside state
    exact .inr ⟨by simp, m', ran, settings_data alters⟩
  | toggle =>
    obtain ⟨m', alters, ran⟩ := @bitToggle_alters (pinGetDataReg pin) _ m inside
    by_cases low : (pinGetAddr pin).toNat < 4
    · refine .inr ⟨by simp [low], m', ?_, settings_data alters⟩
      rw [run, pinToggle, ran, bitRead_eq ((maskBit_lt pin).mpr low)]
      rfl
    · refine .inl ⟨rfl, Nat.le_of_not_lt low, ?_⟩
      rw [run, pinToggle, ran, bitRead_undefined fun small => low ((maskBit_lt pin).mp small)]
      rfl

/-- Calls one after the other. -/
def runPins (calls : List (Pin × PinCall)) (m : Ports) : Option Ports :=
  calls.foldlM (fun m c => c.2.run c.1 m) m

/-- **Any calls on any pins change each pin as if it were alone, unless they toggle a
pin in the upper half of its port.** -/
theorem runPins_eq (calls : List (Pin × PinCall)) (m : Ports) :
    (runPins calls m = none ↔ ∃ c ∈ calls, c.2 = .toggle ∧ 4 ≤ (pinGetAddr c.1).toNat) ∧
      ∀ m', runPins calls m = some m' → ∀ pin, settings m' pin =
        ((calls.filter fun c => c.1 = pin).map Prod.snd).foldl (fun p call => call.effect p) (settings m pin) := by
  induction calls generalizing m with
  | nil =>
    refine ⟨by simp [runPins], ?_⟩
    rintro m' ⟨⟩ pin
    rfl
  | cons c rest ih =>
    obtain ⟨pin, call⟩ := c
    rcases call.run_eq pin m with ⟨toggles, high, ran⟩ | ⟨fine, m', ran, changed⟩
    · have undefined : runPins ((pin, call) :: rest) m = none := by
        rw [runPins, List.foldlM_cons, ran]
        rfl
      rw [undefined]
      exact ⟨⟨fun _ => ⟨(pin, call), List.mem_cons_self, toggles, high⟩, fun _ => rfl⟩, nofun⟩
    · have next : runPins ((pin, call) :: rest) m = runPins rest m' := by
        rw [runPins, List.foldlM_cons, ran]
        rfl
      obtain ⟨undefined, each⟩ := ih m'
      rw [next]
      constructor
      · rw [undefined]
        simp only [List.mem_cons, exists_eq_or_imp]
        exact ⟨.inr, fun h => h.resolve_left fine⟩
      · intro m'' ran' q
        rw [each m'' ran' q, changed]
        by_cases same : pin = q
        · subst same
          simp
        · rw [Function.update_of_ne (Ne.symm same)]
          simp [same]

/-- `setup_pins` makes three pins outputs, and leaves their levels as they are. -/
theorem setupPins_eq (m : Ports) : ∃ m', setupPins m = some m' ∧ ∀ pin, settings m' pin =
    if pin = Pin.led ∨ pin = Pin.gsmon ∨ pin = Pin.pwrkey then { settings m pin with output := true }
    else settings m pin := by
  have configured : ∀ pin m, ∃ m', pinConfigure pin 1 m = some m' ∧
      settings m' = Function.update (settings m) pin { settings m pin with output := true } := by
    intro pin m
    obtain ⟨m', ran, alters⟩ := @bitWrite_alters (pinGetDirectionReg pin) _ m (pinGetAddr_lt pin) 1
    exact ⟨m', ran, settings_direction alters⟩
  obtain ⟨a, first, afterFirst⟩ := configured Pin.pwrkey m
  obtain ⟨b, second, afterSecond⟩ := configured Pin.gsmon a
  obtain ⟨c, third, afterThird⟩ := configured Pin.led b
  have ran : setupPins m = some c := by
    simp only [setupPins, first, Option.bind_eq_bind, Option.bind_some, second]
    exact third
  refine ⟨c, ran, fun pin => ?_⟩
  have apart : Pin.led ≠ Pin.gsmon ∧ Pin.led ≠ Pin.pwrkey ∧ Pin.gsmon ≠ Pin.pwrkey := by decide
  rw [afterThird, afterSecond, afterFirst]
  by_cases led : pin = Pin.led
  · subst led
    rw [Function.update_self, if_pos (.inl rfl), Function.update_of_ne apart.1, Function.update_of_ne apart.2.1]
  · by_cases gsmon : pin = Pin.gsmon
    · subst gsmon
      rw [Function.update_of_ne led, Function.update_self, if_pos (.inr (.inl rfl)), Function.update_of_ne apart.2.2]
    · by_cases pwrkey : pin = Pin.pwrkey
      · subst pwrkey
        rw [Function.update_of_ne led, Function.update_of_ne gsmon, Function.update_self, if_pos (.inr (.inr rfl))]
      · rw [Function.update_of_ne led, Function.update_of_ne gsmon, Function.update_of_ne pwrkey, if_neg (by tauto)]

/-- **`pin_toggle` returns the new level of its pin exactly when the bit whose number
is the mask happens to have it.** -/
theorem pinToggle_iff (pin : Pin) (m : Ports) :
    (∃ m', pinToggle pin m = some (if (settings m' pin).high then 1 else 0, m')) ↔
      (pinGetAddr pin).toNat < 4 ∧
        (m (pinGetDataReg pin)).getLsbD (2 ^ (pinGetAddr pin).toNat) = !(settings m pin).high := by
  obtain ⟨m', alters, ran⟩ := @bitToggle_alters (pinGetDataReg pin) _ m (pinGetAddr_lt pin)
  rw [pinToggle, ran]
  by_cases low : (pinGetAddr pin).toNat < 4
  · have level : (settings m' pin).high = !(settings m pin).high := by rw [settings_data alters, Function.update_self]
    have apart : 2 ^ (pinGetAddr pin).toNat ≠ (pinGetAddr pin).toNat := Nat.lt_two_pow_self.ne'
    have read : (m' (pinGetDataReg pin)).getLsbD (2 ^ (pinGetAddr pin).toNat) =
        (m (pinGetDataReg pin)).getLsbD (2 ^ (pinGetAddr pin).toNat) := by
      rw [alters, if_neg fun both => apart both.2]
    rw [bitRead_eq ((maskBit_lt pin).mpr low), maskBit_eq, read, ← level]
    generalize (m (pinGetDataReg pin)).getLsbD (2 ^ (pinGetAddr pin).toNat) = value
    constructor
    · rintro ⟨_, same⟩
      obtain ⟨returned, rfl⟩ := Prod.mk.inj (Option.some.inj same)
      refine ⟨low, ?_⟩
      cases high : (settings m' pin).high <;> cases value <;> simp [high] at returned ⊢
    · rintro ⟨-, same⟩
      exact ⟨m', by rw [same]; rfl⟩
  · rw [bitRead_undefined fun small => low ((maskBit_lt pin).mp small)]
    simp [low]

end Zouipocar
