import TouchI2c.DwI2c.Device

/-!
# A model of the DesignWare controller

The controller as a TX FIFO of commands and an RX FIFO of bytes, with a slave that answers each
executed READ command with one byte. Between two register accesses it may take any number of steps.
Each READ command carries its number in the order of all READ commands ever written, and `produced`
records which byte answered which of them; neither is visible to the driver.

`hold` says what an abort does to the TX FIFO. Without it the abort empties the FIFO once. With it
the FIFO stays empty until `IC_CLR_TX_ABRT` is read. The data sheet describes the second, and the
driver depends on it: a command that is queued between the abort and its detection must not be left
over for the next transfer.
-/

namespace TouchI2c

open Interaction

/-! ## Commands -/

/-- A command in the TX FIFO, with the number of READ commands written before it. -/
structure DwCommand where
  word : UInt32
  seq : ℕ

/-- Bit 8: a READ command. -/
def DwCommand.isRead (c : DwCommand) : Bool := c.word.toNat.testBit 8

/-- Bit 9: a STOP follows the command. -/
def DwCommand.isStop (c : DwCommand) : Bool := c.word.toNat.testBit 9

/-- Bit 10: a repeated START precedes the command. -/
def DwCommand.isRestart (c : DwCommand) : Bool := c.word.toNat.testBit 10

/-- What a latched abort says. -/
inductive DwAbort where
  | addressNak
  | other
  deriving DecidableEq

/-! ## The controller -/

structure DwController where
  tx : List DwCommand
  rx : List UInt8
  /-- A START has been acknowledged and no STOP has followed. -/
  active : Bool
  abort : Option DwAbort
  /-- `IC_ENABLE`. -/
  enable : Bool
  /-- `IC_ENABLE_STATUS`. -/
  enabled : Bool
  /-- The polls of `IC_ENABLE_STATUS` since `IC_ENABLE` was written. -/
  polls : ℕ
  /-- The READ commands written so far. -/
  issued : ℕ
  produced : List (ℕ × UInt8)

namespace DwController

/-- One step of the controller on its own. -/
inductive Step : DwController → DwController → Prop
  | write {c : DwController} {cmd : DwCommand} {tx : List DwCommand} (hen : c.enabled = true)
      (htx : c.tx = cmd :: tx) (hcmd : cmd.isRead = false) :
      Step c { c with tx := tx, active := !cmd.isStop }
  | read {c : DwController} {cmd : DwCommand} {tx : List DwCommand} (hen : c.enabled = true)
      (htx : c.tx = cmd :: tx) (hcmd : cmd.isRead = true) (b : UInt8) :
      Step c { c with tx := tx, active := !cmd.isStop, rx := c.rx ++ [b],
                      produced := c.produced ++ [(cmd.seq, b)] }
  /-- Nobody acknowledges the address of a START or a repeated START. -/
  | addressNak {c : DwController} {cmd : DwCommand} {tx : List DwCommand} (hen : c.enabled = true)
      (htx : c.tx = cmd :: tx) (hstart : c.active = false ∨ cmd.isRestart = true)
      (habort : c.abort = none) :
      Step c { c with tx := [], active := false, abort := some .addressNak }
  | otherAbort {c : DwController} (hen : c.enabled = true) (habort : c.abort = none) :
      Step c { c with tx := [], active := false, abort := some .other }
  | disable {c : DwController} (hreq : c.enable = false) :
      Step c { c with enabled := false, tx := [], rx := [], active := false }
  | enable {c : DwController} (hreq : c.enable = true) : Step c { c with enabled := true }

/-- What a register may read, and the controller after it. A disable takes effect within
`DW_POLL_LIMIT` polls. -/
def Reads (c : DwController) (off : UInt64) (r : UInt32) (c' : DwController) : Prop :=
  if off = dwIcRawIntrStat then (r &&& dwIcIntrTxAbrt ≠ 0 ↔ c.abort ≠ none) ∧ c' = c
  else if off = dwIcStatus then (r &&& dwIcStatusRfne ≠ 0 ↔ c.rx ≠ []) ∧ c' = c
  else if off = dwIcDataCmd then
    (c.rx = [] ∧ c' = c) ∨ ∃ rx, c.rx = (r &&& 0xFF).toUInt8 :: rx ∧ c' = { c with rx := rx }
  else if off = dwIcTxAbrtSource then
    (r &&& dwIcAbrt7bAddrNoack ≠ 0 ↔ c.abort = some .addressNak) ∧ c' = c
  else if off = dwIcClrTxAbrt then c' = { c with abort := none }
  else if off = dwIcEnableStatus then
    (r &&& dwIcEnableStatusEn ≠ 0 ↔ c.enabled = true) ∧
      (c.enable = false → c.enabled = true → c.polls + 1 < dwPollLimit) ∧
      c' = { c with polls := c.polls + 1 }
  else c' = c

/-- Whether the TX FIFO takes commands. -/
def accepts (hold : Bool) (c : DwController) : Bool := c.enabled && !(hold && c.abort.isSome)

/-- The controller after a register is written. -/
def written (hold : Bool) (c : DwController) (off : UInt64) (v : UInt32) : DwController :=
  if off = dwIcDataCmd then
    { c with tx := if c.accepts hold then c.tx ++ [⟨v, c.issued⟩] else c.tx,
             issued := if v.toNat.testBit 8 then c.issued + 1 else c.issued }
  else if off = dwIcEnable then { c with enable := v &&& dwIcEnableEnable ≠ 0, polls := 0 }
  else c

/-- The controller as a device. -/
def device (hold : Bool) : Device DwController where
  Step := Step
  Reads := Reads
  Writes c off v c' := c' = c.written hold off v

/-- What an operation of the driver does to the controller at `base`. -/
def Answers (base : UInt64) (hold : Bool) (c : DwController) :
    (e : UefiOp) → e.Ret → DwController → Prop
  | .mmioRead32 a, r, c' => c.Reads (a - base) r c'
  | .mmioWrite32 a v, _, c' => c' = c.written hold (a - base) v
  | _, _, c' => c' = c

end DwController

/-- The controller at `base` as the environment of the driver. -/
def dwWorld (base : UInt64) (hold : Bool) : World Uefi DwController where
  drift := Relation.ReflTransGen DwController.Step
  Allowed _ _ := True
  answer := DwController.Answers base hold

/-! ## Register accesses -/

section

variable {base : UInt64} {hold : Bool} {A : DwController → UefiOp → Prop} {c : DwController}
  {P : DwController → Prop}

/-- The controller is a device of its own, whatever the world allows. -/
theorem behind_dwWorld :
    (DwController.device hold).Behind base ((dwWorld base hold).restrict A) where
  drift _ _ h := h
  reads c off r c' h := by
    change c.Reads (base + off - base) r c' at h
    rwa [add_sub_base] at h
  writes c off val c' h := by
    change c' = c.written hold (base + off - base) val at h
    rwa [add_sub_base] at h

theorem stable_of_step (hstep : ∀ c c', P c → DwController.Step c c' → P c') :
    ((dwWorld base hold).restrict A).Stable P := behind_dwWorld.stable hstep

/-- The rule of a register read. -/
theorem wp_rd (hstep : ∀ c c', P c → DwController.Step c c' → P c') (hc : P c)
    (hallowed : ∀ c e, P c → A c e) {off : UInt64} {Q : UInt32 → DwController → Prop}
    (h : ∀ c r c', P c → c.Reads off r c' → Q r c') :
    ((dwWorld base hold).restrict A).wp (regRd base off) Q c :=
  behind_dwWorld.wp_rd hstep hc (fun c hc ↦ hallowed c _ hc) h

/-- The rule of a register write. -/
theorem wp_wr (hstep : ∀ c c', P c → DwController.Step c c' → P c') (hc : P c)
    (hallowed : ∀ c e, P c → A c e) {off : UInt64} {val : UInt32}
    {Q : Unit → DwController → Prop} (h : ∀ c, P c → Q () (c.written hold off val)) :
    ((dwWorld base hold).restrict A).wp (regWr base off val) Q c :=
  behind_dwWorld.wp_wr hstep hc (fun c hc ↦ hallowed c _ hc) fun c _ hc hwritten ↦ hwritten ▸ h c hc

end

end TouchI2c
