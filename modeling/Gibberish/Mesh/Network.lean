/-
# A network of dongles

Any number of dongles run their main loops and share the air: whatever one of them
broadcasts, any other may hear, at any time, any number of times, or never. A run of the
network is, for each node, a run of its dongle.
-/

import Gibberish.Firmware.Traffic

set_option autoImplicit false

namespace Gibberish.Mesh

open Gibberish.Foundation Gibberish.Protocol Gibberish.Firmware

variable {Node : Type*} [DecidableEq Node]

/-- The dongles, and every frame broadcast so far. -/
structure Network (Node : Type*) where
  dongle : Node → Dongle
  air : List (Bytes phyMtu)

/-- Something that happens at one node: anything but a reception, or the radio delivers. -/
inductive NetworkInput (Node : Type*) where
  | act (node : Node) (input : DongleInput)
  | deliver (node : Node) (data : List UInt8) (random : UInt32)

/-- The frame that an output puts on the air. -/
def frameOf : DongleOutput → Option (Bytes phyMtu)
  | .broadcast frame _ => some frame
  | _ => none

namespace Network

/-- All dongles just started, and nothing is on the air. -/
def boot (localMac : Node → Bytes 8) : Network Node := ⟨fun node => .boot (localMac node), []⟩

/-- What happens to which dongle: a delivery that holds no packet does nothing. -/
def nodeInput (net : Network Node) : NetworkInput Node → Option (Node × DongleInput)
  | .act node input => some (node, input)
  | .deliver node data random =>
    ((net.dongle node).radio.receiveRaw data).map fun rx => (node, .receive rx random)

def step (net : Network Node) (input : NetworkInput Node) :
    Network Node × List (Node × DongleOutput) :=
  match net.nodeInput input with
  | none => (net, [])
  | some (node, dongleInput) =>
    let (d, outputs) := (net.dongle node).step dongleInput
    (⟨Function.update net.dongle node d, net.air ++ outputs.filterMap frameOf⟩,
      outputs.map fun output => (node, output))

/-- The network as a machine; every output comes with its node. -/
def machine : Machine (Network Node) (NetworkInput Node) (Node × DongleOutput) := ⟨step⟩

/-- What the medium allows: packets are received off the air only, as some frame there. -/
def Delivers (net : Network Node) : NetworkInput Node → Prop
  | .act _ input => ∀ rx random, input ≠ .receive rx random
  | .deliver _ data _ => ∃ frame ∈ net.air, Hears data frame

/-! ### The runs of the nodes -/

/-- What happens at one node. -/
def inputAt (node : Node) (net : Network Node) (input : NetworkInput Node) : Option DongleInput :=
  match net.nodeInput input with
  | none => none
  | some (node', dongleInput) => if node' = node then some dongleInput else none

/-- What happens at one node in a run. -/
def inputsAt (node : Node) (net : Network Node) (inputs : List (NetworkInput Node)) :
    List DongleInput :=
  (machine.trace net inputs).filterMap fun x => x.1.inputAt node x.2

/-- What one node outputs. -/
def outputsAt (node : Node) (outputs : List (Node × DongleOutput)) : List DongleOutput :=
  outputs.filterMap fun x => if x.1 = node then some x.2 else none

/-- **Step lemma.** A step of the network is a step of the dongle it concerns, and nothing at
all other nodes. -/
theorem step_at (node : Node) (net : Network Node) (input : NetworkInput Node) :
    (machine.next net input).dongle node =
        Dongle.machine.final (net.dongle node) (net.inputAt node input).toList ∧
      outputsAt node (machine.emit net input) =
        Dongle.machine.outputs (net.dongle node) (net.inputAt node input).toList := by
  simp only [Machine.next, Machine.emit, machine, step, inputAt]
  cases net.nodeInput input with
  | none => exact ⟨rfl, rfl⟩
  | some x =>
    obtain ⟨node', dongleInput⟩ := x
    dsimp only
    by_cases hnode : node' = node
    · subst hnode
      rw [if_pos rfl]
      refine ⟨Function.update_self _ _ _, ?_⟩
      simp [outputsAt, Machine.emit, Dongle.machine]
    · rw [if_neg hnode]
      refine ⟨Function.update_of_ne (Ne.symm hnode) _ _, ?_⟩
      simp [outputsAt, hnode]

theorem inputsAt_append (node : Node) (net : Network Node)
    (before after : List (NetworkInput Node)) :
    inputsAt node net (before ++ after) =
      inputsAt node net before ++ inputsAt node (machine.final net before) after := by
  rw [inputsAt, Machine.trace_append, List.filterMap_append, inputsAt, inputsAt]

/-- A node's inputs, the first input of the network apart. -/
theorem inputsAt_cons (node : Node) (net : Network Node) (input : NetworkInput Node)
    (rest : List (NetworkInput Node)) :
    inputsAt node net (input :: rest) =
      (net.inputAt node input).toList ++ inputsAt node (machine.next net input) rest := by
  rw [inputsAt, Machine.trace_cons, List.filterMap_cons, inputsAt]
  cases net.inputAt node input with
  | none => rfl
  | some dongleInput => rfl

theorem nodeInput_of_inputAt {net : Network Node} {node : Node} {input : NetworkInput Node}
    {dongleInput : DongleInput} (h : net.inputAt node input = some dongleInput) :
    net.nodeInput input = some (node, dongleInput) := by
  rw [inputAt] at h
  split at h
  · cases h
  · rename_i node' dongleInput' hnode
    split at h
    · rename_i heq
      rw [hnode, heq, Option.some.inj h]
    · cases h

/-- What guards the steps of all dongles guards the run of each. -/
theorem guarded_at {ok : Dongle → DongleInput → Prop} {net : Network Node}
    {inputs : List (NetworkInput Node)}
    (guarded : machine.Guarded (fun net input => ∀ node dongleInput,
      net.nodeInput input = some (node, dongleInput) → ok (net.dongle node) dongleInput) net inputs)
    (node : Node) :
    Dongle.machine.Guarded ok (net.dongle node) (inputsAt node net inputs) := by
  induction inputs generalizing net with
  | nil => exact Machine.guarded_nil _ _
  | cons input rest ih =>
    obtain ⟨hinput, hrest⟩ := (Machine.guarded_cons _ _ _ _).mp guarded
    have hnext := ih hrest
    rw [(net.step_at node input).1] at hnext
    rw [inputsAt_cons, Machine.guarded_append]
    refine ⟨?_, hnext⟩
    cases hat : net.inputAt node input with
    | none => exact Machine.guarded_nil _ _
    | some dongleInput =>
      refine (Machine.guarded_cons _ _ _ _).mpr ⟨?_, Machine.guarded_nil _ _⟩
      exact hinput node dongleInput (nodeInput_of_inputAt hat)

/-- **Run lemma.** Each node runs its own dongle. -/
theorem run_at (node : Node) (net : Network Node) (inputs : List (NetworkInput Node)) :
    (machine.final net inputs).dongle node =
        Dongle.machine.final (net.dongle node) (inputsAt node net inputs) ∧
      outputsAt node (machine.outputs net inputs) =
        Dongle.machine.outputs (net.dongle node) (inputsAt node net inputs) := by
  induction inputs generalizing net with
  | nil => exact ⟨rfl, rfl⟩
  | cons input rest ih =>
    obtain ⟨hnext, hemit⟩ := net.step_at node input
    obtain ⟨hfinal, houtputs⟩ := ih (machine.next net input)
    constructor
    · rw [Machine.final_cons, hfinal, hnext, inputsAt_cons, Machine.final_append]
    · rw [Machine.outputs_cons, outputsAt, List.filterMap_append, ← outputsAt, ← outputsAt, hemit,
        houtputs, hnext, inputsAt_cons, Machine.outputs_append]

/-- What happens at one node happens there alone. -/
theorem inputsAt_act (node node' : Node) (net : Network Node) (dongleInputs : List DongleInput) :
    inputsAt node' net (dongleInputs.map (.act node)) =
      if node = node' then dongleInputs else [] := by
  induction dongleInputs generalizing net with
  | nil => exact (ite_self _).symm
  | cons dongleInput rest ih =>
    have hat : net.inputAt node' (.act node dongleInput) =
        if node = node' then some dongleInput else none := rfl
    rw [List.map_cons, inputsAt_cons, ih, hat]
    split
    · rfl
    · rfl

/-- What is no reception needs no air. -/
theorem delivers_act (node : Node) (net : Network Node) {dongleInputs : List DongleInput}
    (none : ∀ dongleInput ∈ dongleInputs, ∀ rx random, dongleInput ≠ .receive rx random) :
    machine.Guarded Delivers net (dongleInputs.map (.act node)) := by
  induction dongleInputs generalizing net with
  | nil => exact Machine.guarded_nil _ _
  | cons dongleInput rest ih =>
    refine (Machine.guarded_cons _ _ _ _).mpr ⟨none dongleInput List.mem_cons_self, ?_⟩
    exact ih _ fun dongleInput' hmem => none dongleInput' (List.mem_cons_of_mem _ hmem)

end Network

end Gibberish.Mesh
