import LteUlp.Rrc.Model

set_option autoImplicit false
set_option linter.unusedSectionVars false

/-! # UE contexts of the MAC layer

One context for each RNTI that has been received. It holds the radio values of the last
PDU, which the layers above read. The MAC state extends the RRC state: a MAC function is
given all the state that the functions it calls work on.
-/

namespace LteUlp.Mac

open BlockStore LteUlp.Rrc

/-- `MacUeContext`. -/
structure MacUeContext where
  idleCount : UInt32
  rnti : UInt16
  rbNum : UInt8
  deleteFlag : Bool
  prbPower : Int
  ta : Int
  deriving DecidableEq, Inhabited

/-- The MAC contexts, over the state of the RRC layer. -/
structure MacState (β : Type) extends RrcState β where
  macUeContext : β → MacUeContext
  gMacUeContext : List β

variable {β : Type} [DecidableEq β] (env : Platform β)

namespace MacState

/-- Let the RRC layer do something. -/
def onRrc (s : MacState β) (f : RrcState β → RrcState β) : MacState β :=
  { s with toRrcState := f s.toRrcState }

/-- `MemAlloc`. -/
def alloc (s : MacState β) (n : Nat) : MacState β × Option β :=
  let r := s.toRrcState.alloc env n
  ({ s with toRrcState := r.1 }, r.2)

/-- `MemFree`. -/
def free (s : MacState β) (a : β) : MacState β := s.onRrc fun t => t.free a

/-- Write to a context. -/
def setMacContext (s : MacState β) (a : β) (c : MacUeContext) : MacState β :=
  { s with macUeContext := Function.update s.macUeContext a c }

end MacState

/-- `MacCreateUeContext`. The timing advance is not initialised. -/
def macCreateUeContext (s : MacState β) (rnti : UInt16) : MacState β × Option β :=
  match s.alloc env (env.sizeof .macUeContext) with
  | (s, none) => (s, none)
  | (s, some a) =>
      ({ s.setMacContext a ⟨0, rnti, 0, false, 0, (s.macUeContext a).ta⟩ with
          gMacUeContext := s.gMacUeContext ++ [a] }, some a)

/-- `MacGetUeContext`. -/
def macGetUeContext (s : MacState β) (rnti : UInt16) : Option β :=
  s.gMacUeContext.find? fun a => (s.macUeContext a).rnti == rnti

/-- `MacDeleteUeContext`. -/
def macDeleteUeContext (s : MacState β) (a : β) : MacState β :=
  { s with gMacUeContext := s.gMacUeContext.erase a }.free a

/-- `MacUpdateUeContextTime`. -/
def macUpdateUeContextTime (s : MacState β) (a : β) (value : UInt32) : MacState β :=
  let c := s.macUeContext a
  s.setMacContext a { c with idleCount := if value = 0 then 0 else c.idleCount + value }

/-- The contexts have different RNTIs, and none is pending deletion. -/
structure MacSound (s : MacState β) : Prop where
  live : ∀ a ∈ s.gMacUeContext, (s.macUeContext a).deleteFlag = false
  unique : (s.gMacUeContext.map fun a => (s.macUeContext a).rnti).Nodup

/-- It is about the contexts only. -/
theorem MacSound.same {s t : MacState β} (h : MacSound s) (hl : t.gMacUeContext = s.gMacUeContext)
    (hc : ∀ a ∈ s.gMacUeContext, (t.macUeContext a).deleteFlag = (s.macUeContext a).deleteFlag ∧
      (t.macUeContext a).rnti = (s.macUeContext a).rnti) : MacSound t := by
  constructor
  · intro a ha
    rw [hl] at ha
    rw [(hc a ha).1]
    exact h.live a ha
  · rw [hl, List.map_congr_left fun a ha => (hc a ha).2]
    exact h.unique

end LteUlp.Mac
