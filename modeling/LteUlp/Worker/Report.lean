import LteUlp.Mac.Context

set_option autoImplicit false
set_option linter.unusedSectionVars false

/-! # The report pass

The identity part of `UlpRecvAndHandleOamData`: it fills the array of a report with the
contexts that are ready, with those that have both identities or have been idle for too
long, and with the RNTIs of idle MAC contexts, at most 32 in all. The array so far is the
list `entries`, so that `ueIndex` is its length.
-/

namespace LteUlp.Worker

open LteUlp.Rrc LteUlp.Mac

def maxNumUeInfoReport : Nat := 32

/-- The globals that configure the pass. `stale` is what the array of the report holds before
it is written to. -/
structure ReportConfig where
  gMaxRrcCtxIdleCount : Nat
  gMaxIdleCount : Nat
  stale : Nat → UeIdentity

variable {β : Type} [DecidableEq β] (cfg : ReportConfig)

/-- The entry for an RRC context. -/
def reportEntry (c : RrcUeContext) : UeIdentity := { c.ueIdentity with rnti := c.rnti }

/-- The context holds an identity. -/
def hasIdentity (id : UeIdentity) : Bool := id.imsiPresent || id.mTmsiPresent

/-- The loop over `gReadyRrcUeContextList`, which is run at most as often as the list is
long. A context without an identity is popped and forgotten. -/
def reportReady : Nat → MacState β → List UeIdentity → MacState β × List UeIdentity
  | 0, s, entries => (s, entries)
  | count + 1, s, entries =>
      match s.gReadyRrcUeContextList with
      | [] => (s, entries)
      | a :: rest =>
          let c := s.rrcUeContext a
          let s := s.onRrc fun t => { t with gReadyRrcUeContextList := rest }
          if hasIdentity c.ueIdentity then
            let s := s.free a
            let entries := entries ++ [reportEntry c]
            if entries.length = maxNumUeInfoReport then (s, entries)
            else reportReady count s entries
          else reportReady count s entries

/-- The body of the loop over `gRrcUeContextList`. -/
def reportContext (s : MacState β) (entries : List UeIdentity) (a : β) :
    MacState β × List UeIdentity :=
  let c := s.rrcUeContext a
  if entries.length < maxNumUeInfoReport ∧
      ((c.ueIdentity.imsiPresent && c.ueIdentity.mTmsiPresent) = true ∨
        c.idleCount.toNat ≥ cfg.gMaxRrcCtxIdleCount) then
    let s := s.onRrc fun t => t.setContext a { c with deleteFlag := true }
    let entries := if hasIdentity c.ueIdentity then entries ++ [reportEntry c] else entries
    (s.onRrc fun t => rrcDeleteUeContext t a, entries)
  else (s.onRrc fun t => rrcUpdateUeContextTime t (some a) 1, entries)

/-- The loop over the contexts from a node on. The next node is read before the context may
be deleted, so these are the nodes that the list has when the loop begins. -/
def reportContexts :
    List β → MacState β → List UeIdentity → MacState β × List UeIdentity
  | [], s, entries => (s, entries)
  | a :: rest, s, entries =>
      let r := reportContext cfg s entries a
      reportContexts rest r.1 r.2

/-- The body of the loop over `gMacUeContext`. The context is counted idle also when it has
just been deleted. -/
def reportMacContext (s : MacState β) (entries : List UeIdentity) (a : β) :
    MacState β × List UeIdentity :=
  let c := s.macUeContext a
  if entries.length < maxNumUeInfoReport ∧ c.idleCount.toNat ≥ cfg.gMaxIdleCount then
    let s := s.setMacContext a { c with deleteFlag := true }
    let entry : UeIdentity :=
      { cfg.stale entries.length with
        rnti := c.rnti, imsiPresent := false, mTmsiPresent := false }
    (macUpdateUeContextTime (macDeleteUeContext s a) a 1, entries ++ [entry])
  else (macUpdateUeContextTime s a 1, entries)

/-- The loop over the MAC contexts from a node on. -/
def reportMacContexts :
    List β → MacState β → List UeIdentity → MacState β × List UeIdentity
  | [], s, entries => (s, entries)
  | a :: rest, s, entries =>
      let r := reportMacContext cfg s entries a
      reportMacContexts rest r.1 r.2

/-- **The report pass**: the state it leaves and the entries it sends. -/
def reportPass (s : MacState β) : MacState β × List UeIdentity :=
  let r := reportReady s.gReadyRrcUeContextList.length s []
  let r := reportContexts cfg r.1.gRrcUeContextList r.1 r.2
  reportMacContexts cfg r.1.gMacUeContext r.1 r.2

end LteUlp.Worker
