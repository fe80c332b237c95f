/-
# A network of main loops

Any number of dongles run their whole loops, turn by turn, in any order, over one air. Such
a network is a network of dongles: its traffic is that of the inputs its turns stand for,
and what the air delivers to a loop, it delivers to a dongle. So nothing is made up in it.
-/

import Gibberish.Firmware.LoopClocks
import Gibberish.Mesh.Provenance
import Gibberish.Storage.Recovery

set_option autoImplicit false

namespace Gibberish.Mesh

open Gibberish.Foundation Gibberish.Protocol Gibberish.Firmware Gibberish.Storage

variable {Node : Type*} [DecidableEq Node]

/-! ### What happens at one node -/

/-- Where an input happens. -/
def NetworkInput.node : NetworkInput Node → Node
  | .act node _ => node
  | .deliver node _ _ => node

namespace Network

omit [DecidableEq Node] in
theorem node_of_nodeInput {net : Network Node} {input : NetworkInput Node} {node : Node}
    {dongleInput : DongleInput} (h : net.nodeInput input = some (node, dongleInput)) :
    input.node = node := by
  cases input with
  | act node' dongleInput' => exact (Prod.mk.inj (Option.some.inj h)).1
  | deliver node' data random =>
    obtain ⟨rx, -, heq⟩ := Option.map_eq_some_iff.mp h
    exact (Prod.mk.inj heq).1

/-- **Run lemma.** What happens at one node only is a run of its dongle. -/
theorem run_solo {node : Node} (net : Network Node) {inputs : List (NetworkInput Node)}
    (solo : ∀ input ∈ inputs, input.node = node) :
    machine.outputs net inputs =
        (Dongle.machine.outputs (net.dongle node) (inputsAt node net inputs)).map (node, ·) ∧
      machine.final net inputs =
        ⟨Function.update net.dongle node
            (Dongle.machine.final (net.dongle node) (inputsAt node net inputs)),
          net.air ++
            (Dongle.machine.outputs (net.dongle node) (inputsAt node net inputs)).filterMap frameOf⟩ := by
  induction inputs generalizing net with
  | nil =>
    refine ⟨rfl, ?_⟩
    show net = ⟨Function.update net.dongle node (net.dongle node), net.air ++ []⟩
    rw [Function.update_eq_self, List.append_nil]
  | cons input rest ih =>
    have hnode := solo input (List.mem_cons_self)
    obtain ⟨hout, hfinal⟩ := ih (machine.next net input)
      fun input' hmem => solo input' (List.mem_cons_of_mem _ hmem)
    rw [Machine.outputs_cons, Machine.final_cons, hout, hfinal, inputsAt_cons]
    cases hinput : net.nodeInput input with
    | none =>
      have hnext : machine.next net input = net := by
        simp only [Machine.next, machine, step, hinput]
      have hemit : machine.emit net input = [] := by
        simp only [Machine.emit, machine, step, hinput]
      have hat : net.inputAt node input = none := by rw [inputAt, hinput]
      rw [hnext, hemit, hat]
      exact ⟨rfl, rfl⟩
    | some x =>
      obtain ⟨node', dongleInput⟩ := x
      obtain rfl : node' = node := (node_of_nodeInput hinput).symm.trans hnode
      have hnext : machine.next net input =
          ⟨Function.update net.dongle node' (Dongle.machine.next (net.dongle node') dongleInput),
            net.air ++ (Dongle.machine.emit (net.dongle node') dongleInput).filterMap frameOf⟩ := by
        simp only [Machine.next, machine, step, hinput]
        rfl
      have hemit : machine.emit net input =
          (Dongle.machine.emit (net.dongle node') dongleInput).map (node', ·) := by
        simp only [Machine.emit, machine, step, hinput]
        rfl
      have hat : net.inputAt node' input = some dongleInput := by
        rw [inputAt, hinput]
        exact if_pos rfl
      have hdongle : (machine.next net input).dongle node' =
          Dongle.machine.next (net.dongle node') dongleInput := by
        rw [hnext]
        exact Function.update_self _ _ _
      -- Two updates at one node are one, and the frames of both go on the air.
      rw [hdongle, hemit, hat, Option.toList_some, List.singleton_append, Machine.outputs_cons,
        Machine.final_cons, List.map_append, List.filterMap_append]
      generalize inputsAt node' (machine.next net input) rest = rest'
      rw [hnext, Function.update_idem, List.append_assoc]
      exact ⟨rfl, rfl⟩

/-- What frames hold for a node is received there. -/
theorem inputsAt_deliver (node : Node) (net : Network Node) (frames : List (List UInt8 × UInt32)) :
    inputsAt node net (frames.map fun frame => .deliver node frame.1 frame.2) =
      (MainLoop.packetsIn (net.dongle node).radio.localMac frames).map fun x =>
        .receive x.1 x.2 := by
  induction frames generalizing net with
  | nil => rfl
  | cons frame rest ih =>
    have hnext := (net.step_at node (.deliver node frame.1 frame.2)).1
    have hmac : ((machine.next net (.deliver node frame.1 frame.2)).dongle node).radio.localMac =
        (net.dongle node).radio.localMac := by
      rw [hnext, MainLoop.localMac_final]
    have hradio : (net.dongle node).radio.receiveRaw frame.1 =
        (RadioManager.new (net.dongle node).radio.localMac).receiveRaw frame.1 := rfl
    rw [List.map_cons, inputsAt_cons, ih, hmac, MainLoop.packetsIn, MainLoop.packetsIn,
      List.filterMap_cons, inputAt, nodeInput, hradio]
    cases (RadioManager.new (net.dongle node).radio.localMac).receiveRaw frame.1 with
    | none => rfl
    | some rx =>
      simp only [Option.map_some, if_true, Option.toList_some, List.singleton_append, List.map_cons]

/-- What is on the air stays there. -/
theorem air_subset (net : Network Node) (inputs : List (NetworkInput Node)) :
    net.air ⊆ (machine.final net inputs).air := by
  induction inputs generalizing net with
  | nil => exact fun _ h => h
  | cons input rest ih =>
    intro frame hframe
    apply ih (machine.next net input)
    rw [air_next]
    exact List.mem_append_left _ hframe

/-- Frames of the air can be delivered one by one. -/
theorem delivers_deliver (node : Node) (net : Network Node) {frames : List (List UInt8 × UInt32)}
    (sent : ∀ frame ∈ frames, ∃ sent ∈ net.air, Hears frame.1 sent) :
    machine.Guarded Delivers net (frames.map fun frame => .deliver node frame.1 frame.2) := by
  induction frames generalizing net with
  | nil => exact Machine.guarded_nil _ _
  | cons frame rest ih =>
    refine (Machine.guarded_cons _ _ _ _).mpr ⟨sent frame List.mem_cons_self, ih _ ?_⟩
    intro frame' hmem
    obtain ⟨heard, hair, hhears⟩ := sent frame' (List.mem_cons_of_mem _ hmem)
    exact ⟨heard, air_subset net [_] hair, hhears⟩

end Network

/-! ### Loops over one air -/

/-- The loops, and every frame broadcast so far. -/
structure LoopNetwork (Node : Type*) (D : Type) where
  loop : Node → MainLoop D
  air : List (Bytes phyMtu)

namespace LoopNetwork

variable {D : Type}

/-- The network of the dongles in the loops. -/
def network (net : LoopNetwork Node D) : Network Node :=
  ⟨fun node => (net.loop node).dongle, net.air⟩

/-- All loops just started, and nothing is on the air. -/
def boot (tier : Node → TelemetryTier) (localMac : Node → Bytes 8)
    (storage : Node → DynamicStorageManager D) (random : Node → UInt32) : LoopNetwork Node D :=
  ⟨fun node => .boot (tier node) (localMac node) (storage node) (random node), []⟩

/-- What the medium allows: the frames of a turn are some of those on the air. -/
def Delivers (net : LoopNetwork Node D) (x : Node × Surroundings) : Prop :=
  ∀ frame ∈ x.2.frames, ∃ sent ∈ net.air, Hears frame.1 sent

variable [BlockDevice D] (crc32 : Checksum) (tier : Node → TelemetryTier) (postcard : Postcard)

/-- A turn of one loop. -/
def step (net : LoopNetwork Node D) (x : Node × Surroundings) :
    LoopNetwork Node D × List (Node × LoopOutput) :=
  let (s, out) := MainLoop.turn crc32 (tier x.1) postcard (net.loop x.1) x.2
  (⟨Function.update net.loop x.1 s,
      net.air ++ (out.filterMap LoopOutput.traffic?).filterMap frameOf⟩,
    out.map fun output => (x.1, output))

/-- The network as a machine; every output comes with its node. -/
def machine : Machine (LoopNetwork Node D) (Node × Surroundings) (Node × LoopOutput) :=
  ⟨step crc32 tier postcard⟩

/-- What an output of a node is for the air and its host. -/
def traffic? (x : Node × LoopOutput) : Option (Node × DongleOutput) :=
  x.2.traffic?.map fun output => (x.1, output)

/-! ### What a turn stands for -/

/-- What the work of a slot stands for. -/
def slotInputs (node : Node) (tier : TelemetryTier) (s : MainLoop D) (around : Surroundings) :
    RadioSlot → List (NetworkInput Node)
  | .ieee802154Mesh =>
    let s := (s.serviceBackoff around.txOk).1
    (.serviceBackoff 5 around.txOk :: MainLoop.telemetryInputs tier postcard s around).map (.act node) ++
      around.frames.map fun frame => .deliver node frame.1 frame.2
  | .guardBand | .bleCompanion => []

/-- What a turn of a loop stands for in a network of dongles. -/
def turnInputs (net : LoopNetwork Node D) (x : Node × Surroundings) : List (NetworkInput Node) :=
  let s := net.loop x.1
  (s.buttonInputs x.2.btnIsPressed).map (.act x.1) ++
    slotInputs postcard x.1 (tier x.1) (s.beforeSlot x.2.btnIsPressed).1 x.2
      (s.tdmArbiter.advance 5).1 ++
    (x.2.usbBytes.map DongleInput.usbByte).map (.act x.1)

omit [BlockDevice D] in
theorem inputsAt_slotInputs (node : Node) (tier : TelemetryTier) {net : Network Node}
    {s : MainLoop D} (mac : (net.dongle node).radio.localMac = s.radio.localMac)
    (around : Surroundings) (slot : RadioSlot) :
    Network.inputsAt node net (slotInputs postcard node tier s around slot) =
      MainLoop.slotInputs tier postcard s around slot := by
  cases slot with
  | ieee802154Mesh =>
    have hservice := MainLoop.localMac_of_acts (MainLoop.acts_serviceBackoff s around.txOk)
    have htelemetry := MainLoop.localMac_of_acts (MainLoop.acts_emitTelemetry tier postcard
      (s.serviceBackoff around.txOk).1 around)
    rw [slotInputs, Network.inputsAt_append, Network.inputsAt_act, if_pos rfl,
      Network.inputsAt_deliver, (Network.run_at node net _).1, MainLoop.localMac_final, mac,
      MainLoop.slotInputs, MainLoop.meshInputs, MainLoop.frameInputs_eq, htelemetry, hservice]
  | guardBand => rfl
  | bleCompanion => rfl

omit [BlockDevice D] in
/-- **What a turn stands for** at its node is what it stands for by itself. -/
theorem inputsAt_turnInputs (net : LoopNetwork Node D) (x : Node × Surroundings) :
    Network.inputsAt x.1 net.network (turnInputs tier postcard net x) =
      MainLoop.turnInputs (tier x.1) postcard (net.loop x.1) x.2 := by
  obtain ⟨node, around⟩ := x
  have hbefore := MainLoop.localMac_of_acts
    (MainLoop.acts_beforeSlot (net.loop node) around.btnIsPressed)
  have hmac : ((Network.machine.final net.network
      (((net.loop node).buttonInputs around.btnIsPressed).map (.act node))).dongle node).radio.localMac =
      ((net.loop node).beforeSlot around.btnIsPressed).1.radio.localMac := by
    rw [(Network.run_at node net.network _).1, MainLoop.localMac_final, hbefore]
    rfl
  rw [turnInputs, Network.inputsAt_append, Network.inputsAt_append, Network.inputsAt_act,
    Network.inputsAt_act, if_pos rfl, if_pos rfl, inputsAt_slotInputs postcard node (tier node) hmac]
  rfl

omit [DecidableEq Node] [BlockDevice D] in
/-- A turn happens at its node. -/
theorem node_of_mem_turnInputs (net : LoopNetwork Node D) (x : Node × Surroundings) :
    ∀ input ∈ turnInputs tier postcard net x, input.node = x.1 := by
  -- What a loop does by itself is put at its node; frames are delivered there.
  have hact : ∀ (dongleInputs : List DongleInput),
      ∀ input ∈ dongleInputs.map (NetworkInput.act x.1), input.node = x.1 := by
    intro dongleInputs input hmem
    obtain ⟨_, -, rfl⟩ := List.mem_map.mp hmem
    rfl
  intro input hmem
  rw [turnInputs] at hmem
  rcases List.mem_append.mp hmem with hmem | hmem
  · rcases List.mem_append.mp hmem with hmem | hmem
    · exact hact _ input hmem
    · generalize ((net.loop x.1).tdmArbiter.advance 5).1 = slot at hmem
      cases slot with
      | ieee802154Mesh =>
        rcases List.mem_append.mp hmem with hmem | hmem
        · exact hact _ input hmem
        · obtain ⟨frame, -, rfl⟩ := List.mem_map.mp hmem
          rfl
      | guardBand => cases hmem
      | bleCompanion => cases hmem
  · exact hact _ input hmem

omit [BlockDevice D] in
/-- **What the air delivers** to a loop, it delivers to its dongle. -/
theorem delivers_turnInputs {net : LoopNetwork Node D} {x : Node × Surroundings}
    (delivers : Delivers net x) :
    Network.machine.Guarded Network.Delivers net.network (turnInputs tier postcard net x) := by
  have hbutton : ∀ dongleInput ∈ (net.loop x.1).buttonInputs x.2.btnIsPressed, ∀ rx random,
      dongleInput ≠ .receive rx random := by
    intro dongleInput hmem rx random
    rw [MainLoop.buttonInputs] at hmem
    split at hmem
    · obtain rfl := List.mem_singleton.mp hmem
      simp
    · cases hmem
  have husb : ∀ dongleInput ∈ x.2.usbBytes.map DongleInput.usbByte, ∀ rx random,
      dongleInput ≠ .receive rx random := by
    intro dongleInput hmem rx random
    obtain ⟨b, -, rfl⟩ := List.mem_map.mp hmem
    simp
  rw [turnInputs, Machine.guarded_append, Machine.guarded_append]
  refine ⟨⟨Network.delivers_act _ _ hbutton, ?_⟩, Network.delivers_act _ _ husb⟩
  -- A press puts no frame on the air, and takes none from it.
  have hair := Network.air_subset net.network
    (((net.loop x.1).buttonInputs x.2.btnIsPressed).map (.act x.1))
  generalize Network.machine.final net.network
    (((net.loop x.1).buttonInputs x.2.btnIsPressed).map (.act x.1)) = net' at hair
  generalize ((net.loop x.1).beforeSlot x.2.btnIsPressed).1 = s
  cases ((net.loop x.1).tdmArbiter.advance 5).1 with
  | ieee802154Mesh =>
    rw [slotInputs, Machine.guarded_append]
    refine ⟨Network.delivers_act _ _ ?_, Network.delivers_deliver _ _ fun frame hframe => ?_⟩
    -- Neither the service nor the telemetry is a reception.
    · intro dongleInput hmem rx random
      rcases List.mem_cons.mp hmem with rfl | hmem
      · simp
      · rw [MainLoop.telemetryInputs] at hmem
        split at hmem
        · obtain rfl := List.mem_singleton.mp hmem
          simp
        · cases hmem
    · obtain ⟨sent, hsent, hhears⟩ := delivers frame hframe
      exact ⟨sent, Network.air_subset net' _ (hair hsent), hhears⟩
  | guardBand => exact Machine.guarded_nil _ _
  | bleCompanion => exact Machine.guarded_nil _ _

/-! ### Turns and runs -/

/-- **Step lemma.** A turn of a loop is what its network of dongles does. -/
theorem network_step (net : LoopNetwork Node D) (x : Node × Surroundings) :
    ((machine crc32 tier postcard).emit net x).filterMap traffic? =
        Network.machine.outputs net.network (turnInputs tier postcard net x) ∧
      ((machine crc32 tier postcard).next net x).network =
        Network.machine.final net.network (turnInputs tier postcard net x) := by
  obtain ⟨houtputs, hfinal⟩ := MainLoop.acts_turn crc32 (tier x.1) postcard (net.loop x.1) x.2
  obtain ⟨hsolo, hend⟩ :=
    Network.run_solo net.network (node_of_mem_turnInputs tier postcard net x)
  rw [inputsAt_turnInputs] at hsolo hend
  have hdongle : net.network.dongle x.1 = (net.loop x.1).dongle := rfl
  rw [hdongle, ← houtputs] at hsolo hend
  rw [← hfinal] at hend
  constructor
  · rw [hsolo]
    show ((MainLoop.turn crc32 (tier x.1) postcard (net.loop x.1) x.2).2.map
      fun output => (x.1, output)).filterMap traffic? = _
    rw [List.filterMap_map, List.map_filterMap]
    rfl
  · rw [hend]
    show Network.mk _ _ = _
    -- The node's loop is replaced, and its dongle with it.
    congr 1
    funext node
    exact congrFun (Function.comp_update MainLoop.dongle net.loop x.1 _) node

omit [BlockDevice D] in
theorem inputsAt_turnInputs_of_ne (net : LoopNetwork Node D)
    {x : Node × Surroundings} {node : Node} (elsewhere : x.1 ≠ node) (net' : Network Node) :
    Network.inputsAt node net' (turnInputs tier postcard net x) = [] := by
  refine List.filterMap_eq_nil_iff.mpr fun y hy => ?_
  obtain ⟨before, after, hinputs, -⟩ := Machine.mem_trace hy
  have hat := node_of_mem_turnInputs tier postcard net x y.2
    (by rw [hinputs]; exact List.mem_append_right _ List.mem_cons_self)
  rw [Network.inputAt]
  cases hinput : y.1.nodeInput y.2 with
  | none => rfl
  | some z =>
    have hnode := Network.node_of_nodeInput hinput
    exact if_neg fun h => elsewhere (hat.symm.trans (hnode.trans h))

/-- What the turns of a run stand for. -/
def runInputs (net : LoopNetwork Node D) (inputs : List (Node × Surroundings)) :
    List (NetworkInput Node) :=
  ((machine crc32 tier postcard).trace net inputs).flatMap fun x => turnInputs tier postcard x.1 x.2

omit [DecidableEq Node] in
theorem mem_filterMap_traffic {out : List (Node × LoopOutput)} {node : Node}
    {output : DongleOutput} :
    (node, output) ∈ out.filterMap traffic? ↔ (node, .traffic output) ∈ out := by
  rw [List.mem_filterMap]
  constructor
  · rintro ⟨⟨node', told⟩, hmem, heq⟩
    obtain ⟨output', htold, hpair⟩ := Option.map_eq_some_iff.mp heq
    obtain ⟨rfl, rfl⟩ := Prod.mk.inj hpair
    cases told with
    | traffic output =>
      obtain rfl := Option.some.inj htold
      exact hmem
    | _ => cases htold
  · exact fun hmem => ⟨_, hmem, rfl⟩

/-- In some turn of a run, the packet was made at a node: by a press of its button, as a
beacon, or by its telemetry timer, with the number that comes next. -/
def MadeIn (net : LoopNetwork Node D) (inputs : List (Node × Surroundings)) (origin : Node)
    (packet : MeshPacket) : Prop :=
  ∃ before around after, inputs = before ++ (origin, around) :: after ∧
    let s := ((machine crc32 tier postcard).final net before).loop origin
    ∃ input ∈ MainLoop.turnInputs (tier origin) postcard s around,
      s.dongle.selfMade input = some packet

section Runs

variable {crc32 tier postcard} {localMac : Node → Bytes 8}
  {storage : Node → DynamicStorageManager D} {random : Node → UInt32}
  {inputs : List (Node × Surroundings)}

/-- What happens at a node in a run happens in a turn of its loop. -/
theorem turn_of_mem_trace (net : LoopNetwork Node D) {origin : Node} {x : Dongle × DongleInput}
    (hx : x ∈ Dongle.machine.trace (net.loop origin).dongle
      (Network.inputsAt origin net.network (runInputs crc32 tier postcard net inputs))) :
    ∃ before around after, inputs = before ++ (origin, around) :: after ∧
      let s := ((machine crc32 tier postcard).final net before).loop origin
      x ∈ Dongle.machine.trace s.dongle (MainLoop.turnInputs (tier origin) postcard s around) := by
  induction inputs generalizing net with
  | nil => cases hx
  | cons y rest ih =>
    have hcons : runInputs crc32 tier postcard net (y :: rest) = turnInputs tier postcard net y ++
        runInputs crc32 tier postcard ((machine crc32 tier postcard).next net y) rest := rfl
    have hnext := (network_step crc32 tier postcard net y).2
    rw [hcons, Network.inputsAt_append, Machine.trace_append] at hx
    rcases List.mem_append.mp hx with hfirst | hlater
    -- The first turn may be one of another node.
    · by_cases hnode : y.1 = origin
      · subst hnode
        rw [inputsAt_turnInputs] at hfirst
        exact ⟨[], y.2, rest, rfl, hfirst⟩
      · rw [inputsAt_turnInputs_of_ne tier postcard net hnode] at hfirst
        cases hfirst
    · have hdongle : (((machine crc32 tier postcard).next net y).loop origin).dongle =
          Dongle.machine.final (net.loop origin).dongle
            (Network.inputsAt origin net.network (turnInputs tier postcard net y)) := by
        have hat := (Network.run_at origin net.network (turnInputs tier postcard net y)).1
        rw [← hnext] at hat
        exact hat
      rw [← hdongle, ← hnext] at hlater
      obtain ⟨before, around, after, rfl, hturn⟩ := ih _ hlater
      exact ⟨y :: before, around, after, rfl, hturn⟩

/-- What a node makes up, it makes in a turn. -/
theorem madeIn_of_mem_trace (net : LoopNetwork Node D) {origin : Node} {packet : MeshPacket}
    {x : Dongle × DongleInput}
    (hx : x ∈ Dongle.machine.trace (net.loop origin).dongle
      (Network.inputsAt origin net.network (runInputs crc32 tier postcard net inputs)))
    (made : x.1.selfMade x.2 = some packet) :
    MadeIn crc32 tier postcard net inputs origin packet := by
  obtain ⟨before, around, after, hinputs, hturn⟩ := turn_of_mem_trace net hx
  refine ⟨before, around, after, hinputs, x.2, ?_, ?_⟩
  · obtain ⟨first, last, heq, -⟩ := Machine.mem_trace hturn
    rw [heq]
    exact List.mem_append_right _ List.mem_cons_self
  · obtain ⟨hpresses, hfirings⟩ := MainLoop.turnInputs_once (tier origin) postcard
      (((machine crc32 tier postcard).final net before).loop origin) around
    rw [← selfMade_of_mem_trace hpresses hfirings hturn]
    exact made

/-- **Run lemma.** From any network, its loops do what its dongles do. -/
theorem network_run (net : LoopNetwork Node D)
    (delivers : (machine crc32 tier postcard).Guarded Delivers net inputs) :
    let stood := runInputs crc32 tier postcard net inputs
    ((machine crc32 tier postcard).outputs net inputs).filterMap traffic? =
        Network.machine.outputs net.network stood ∧
      ((machine crc32 tier postcard).final net inputs).network =
        Network.machine.final net.network stood ∧
      Network.machine.Guarded Network.Delivers net.network stood := by
  have hstep : ∀ (net : LoopNetwork Node D) (net' : Network Node) x,
      net.network = net' → Delivers net x →
      ((machine crc32 tier postcard).emit net x).filterMap traffic? =
          Network.machine.outputs net' (turnInputs tier postcard net x) ∧
        ((machine crc32 tier postcard).next net x).network =
          Network.machine.final net' (turnInputs tier postcard net x) := by
    rintro net _ x rfl -
    exact network_step crc32 tier postcard net x
  -- The two sides move together, and the medium's promise with them.
  have hguard : ∀ (net : LoopNetwork Node D) (net' : Network Node) x,
      net.network = net' → Delivers net x →
      Network.machine.Guarded Network.Delivers net' (turnInputs tier postcard net x) ∧
        ((machine crc32 tier postcard).next net x).network =
          Network.machine.final net' (turnInputs tier postcard net x) := by
    rintro net _ x rfl hdelivers
    exact ⟨delivers_turnInputs tier postcard hdelivers, (network_step crc32 tier postcard net x).2⟩
  obtain ⟨houtputs, hfinal⟩ := Machine.simulation hstep rfl delivers
  exact ⟨houtputs, hfinal, Machine.simulation_guarded hguard rfl delivers⟩

/-- **A network of loops is a network of dongles**, whatever the order of its turns: it sends
and prints what they do with the inputs that the turns stand for, and where the air delivers
only what is on it, it does so to them. -/
theorem loops_refine_network
    (delivers : (machine crc32 tier postcard).Guarded Delivers
      (boot tier localMac storage random) inputs) :
    let net := boot tier localMac storage random
    let stood := runInputs crc32 tier postcard net inputs
    ((machine crc32 tier postcard).outputs net inputs).filterMap traffic? =
        Network.machine.outputs (.boot localMac) stood ∧
      ((machine crc32 tier postcard).final net inputs).network =
        Network.machine.final (.boot localMac) stood ∧
      Network.machine.Guarded Network.Delivers (.boot localMac) stood :=
  network_run _ delivers

end Runs

/-! ### Two loops -/

/-- A turn in which nothing comes. -/
def quietTurn : Surroundings where
  btnIsPressed := false
  txOk := true
  jitterRandom := 0
  intervalRandom := 0
  freeHeap := 0
  frames := []
  usbBytes := []

/-- A turn in which the button is pressed. -/
def pressTurn : Surroundings := { quietTurn with btnIsPressed := true }

def twoLoops : LoopNetwork Bool Card :=
  boot (fun _ => .debug) Network.pairOfMacs (fun _ => .newRamOnly) fun _ => 0

def twoLoopsMachine : Machine (LoopNetwork Bool Card) (Bool × Surroundings) (Bool × LoopOutput) :=
  machine crc32Ieee (fun _ => .debug) .leb128

/-- The first dongle's button is pressed, and its beacon goes out. -/
def beaconTurns : List (Bool × Surroundings) :=
  [(false, pressTurn), (false, quietTurn), (false, quietTurn)]

/-- The frame of the beacon. -/
def beaconFrame : Bytes phyMtu := (twoLoopsMachine.final twoLoops beaconTurns).air.headD (.zero phyMtu)

/-- The other dongle hears it. -/
def beaconRun : List (Bool × Surroundings) :=
  beaconTurns ++ [(true, { quietTurn with frames := [(delivered beaconFrame, 0)] })]

theorem beaconFrame_mem : beaconFrame ∈ (twoLoopsMachine.final twoLoops beaconTurns).air := by
  have hsent : (twoLoopsMachine.final twoLoops beaconTurns).air.length ≠ 0 := by decide +kernel
  rw [beaconFrame]
  generalize (twoLoopsMachine.final twoLoops beaconTurns).air = air at hsent
  cases air with
  | nil => exact absurd rfl hsent
  | cons frame rest => exact List.mem_cons_self

theorem delivers_beaconRun : twoLoopsMachine.Guarded Delivers twoLoops beaconRun := by
  have hquiet : ∀ x ∈ twoLoopsMachine.trace twoLoops beaconTurns, Delivers x.1 x.2 := by
    intro x hx frame hframe
    have hturn : x.2 ∈ beaconTurns := by
      rw [← Machine.map_snd_trace twoLoops beaconTurns]
      exact List.mem_map_of_mem hx
    have hnone : ∀ turn ∈ beaconTurns, turn.2.frames = [] := by
      simp [beaconTurns, pressTurn, quietTurn]
    rw [hnone x.2 hturn] at hframe
    cases hframe
  rw [beaconRun, Machine.guarded_append, Machine.guarded_cons]
  refine ⟨hquiet, fun frame hframe => ?_, Machine.guarded_nil _ _⟩
  obtain rfl := List.mem_singleton.mp hframe
  exact ⟨beaconFrame, beaconFrame_mem, hears_delivered beaconFrame⟩

/-- A beacon is sent and heard. -/
theorem loops_refine_network_beaconRun :
    let stood := runInputs crc32Ieee (fun _ => .debug) .leb128 twoLoops beaconRun
    (twoLoopsMachine.outputs twoLoops beaconRun).filterMap traffic? =
        Network.machine.outputs (.boot Network.pairOfMacs) stood ∧
      (twoLoopsMachine.final twoLoops beaconRun).network =
        Network.machine.final (.boot Network.pairOfMacs) stood ∧
      Network.machine.Guarded Network.Delivers (.boot Network.pairOfMacs) stood :=
  loops_refine_network delivers_beaconRun

section Runs

variable {crc32 tier postcard} {localMac : Node → Bytes 8}
  {storage : Node → DynamicStorageManager D} {random : Node → UInt32}
  {inputs : List (Node × Surroundings)}

/-- **Nothing is made up.** Whatever a loop of such a network broadcasts, hears or prints is a
beacon or telemetry that some node made in a turn of the run, or a packet that the host of
some node gave it, after at most as many relays as it had hops, and otherwise unchanged. -/
theorem loops_make_nothing_up
    (delivers : (machine crc32 tier postcard).Guarded Delivers
      (boot tier localMac storage random) inputs) {node : Node} {output : DongleOutput}
    (told : (node, .traffic output) ∈
      (machine crc32 tier postcard).outputs (boot tier localMac storage random) inputs) :
    ∃ origin first, ∃ n ≤ first.header.ttl.toNat, packetOf output = aged n first ∧
      (MadeIn crc32 tier postcard (boot tier localMac storage random) inputs origin first ∨
        (origin, .traffic (.usbRx first)) ∈
          (machine crc32 tier postcard).outputs (boot tier localMac storage random) inputs) := by
  obtain ⟨houtputs, -, hdelivers⟩ := network_run _ delivers
  have hboot : (boot tier localMac storage random).network = .boot localMac := rfl
  rw [hboot] at houtputs hdelivers
  have htraffic : ∀ {node : Node} {output : DongleOutput},
      (node, output) ∈ Network.machine.outputs (.boot localMac)
        (runInputs crc32 tier postcard (boot tier localMac storage random) inputs) ↔
      (node, .traffic output) ∈
        (machine crc32 tier postcard).outputs (boot tier localMac storage random) inputs := by
    intro node output
    rw [← houtputs]
    exact mem_filterMap_traffic
  obtain ⟨origin, first, hfirst, n, hn, hpacket⟩ :=
    (Network.traced_of_run hdelivers).told node output (htraffic.mpr told)
  refine ⟨origin, first, n, hn, hpacket, ?_⟩
  rcases Network.ownAt_cases hfirst with ⟨x, hx, hmade⟩ | h
  · exact Or.inl (madeIn_of_mem_trace _ hx hmade)
  · exact Or.inr (htraffic.mp h)

end Runs

/-- The beacon that is heard is the first dongle's. -/
theorem loops_make_nothing_up_beaconRun :
    ∃ output, (true, .traffic output) ∈ twoLoopsMachine.outputs twoLoops beaconRun ∧
      ∃ origin first, ∃ n ≤ first.header.ttl.toNat, packetOf output = aged n first ∧
        (MadeIn crc32Ieee (fun _ => .debug) .leb128 twoLoops beaconRun origin first ∨
          (origin, .traffic (.usbRx first)) ∈ twoLoopsMachine.outputs twoLoops beaconRun) := by
  have hheard : (((twoLoopsMachine.outputs twoLoops beaconRun).filterMap traffic?).filter
      (·.1)).length ≠ 0 := by decide +kernel
  obtain ⟨⟨node, output⟩, hmem⟩ := List.exists_mem_of_length_pos (Nat.pos_of_ne_zero hheard)
  obtain ⟨htraffic, hnode⟩ := List.mem_filter.mp hmem
  obtain rfl : node = true := hnode
  have htold := mem_filterMap_traffic.mp htraffic
  exact ⟨output, htold, loops_make_nothing_up delivers_beaconRun htold⟩

end LoopNetwork

end Gibberish.Mesh
