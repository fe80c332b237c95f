/-
# Drawing only what has changed

As long as what the driver has cached is what the screen shows, leaving out what is cached
makes no difference, and every drawing keeps it so. A dashboard drawn over others
therefore looks as it does on a screen just cleared.
-/

import Gibberish.Firmware.DisplayCells

set_option autoImplicit false

namespace Gibberish.Firmware

open Gibberish.Foundation Layer

namespace St7735

variable {d : St7735} {line : Fin numLines} {chars : Vector UInt8 lineChars} {fg bg : UInt16}

/-! ### The cache and the screen -/

/-- Where a line is valid, its cells are shown as they are cached, and so is the badge. -/
structure Coherent (d : St7735) : Prop where
  line_shown : ∀ line : Fin numLines, d.cachedValid.get line = true →
    ∀ col : Fin lineChars, col.val < maxCols line →
      (cell line col ((d.cachedText.get line).get col) (d.cachedFg.get line)
        (d.cachedBg.get line)).ShownBy d.screen
  badge_shown : d.lastSyncPhase ≠ 0xFF → (badge d.lastSyncPhase).ShownBy d.screen

/-- A clean cell of a coherent state is shown as it is to be drawn. -/
theorem Coherent.shown_of_clean (h : d.Coherent) {col : Fin lineChars}
    (hcol : col.val < maxCols line) (hclean : d.dirty line chars fg bg col = false) :
    (cell line col (chars.get col) fg bg).ShownBy d.screen := by
  simp only [dirty, Bool.or_eq_false_iff, Bool.not_eq_false', decide_eq_false_iff_not,
    not_not] at hclean
  obtain ⟨⟨⟨hvalid, htext⟩, hfg⟩, hbg⟩ := hclean
  have hshown := h.line_shown line hvalid col hcol
  rwa [htext, hfg, hbg] at hshown

/-- The driver has painted some layers and is coherent. -/
structure Redraws (layers : List (Layer Pixel UInt16)) (d d' : St7735) : Prop where
  screen_eq : d'.screen = paint layers d.screen
  coherent : d'.Coherent

theorem Redraws.refl (h : d.Coherent) : Redraws [] d d := ⟨rfl, h⟩

theorem Redraws.trans {layers layers' : List (Layer Pixel UInt16)} {d' d'' : St7735}
    (h : Redraws layers d d') (h' : Redraws layers' d' d'') :
    Redraws (layers ++ layers') d d'' := by
  refine ⟨?_, h'.coherent⟩
  rw [h'.screen_eq, h.screen_eq, paint_append]

/-- The fast path of a line paints all its cells. -/
theorem screen_drawDirtyLine (h : d.Coherent) (line : Fin numLines) (text : List Char)
    (fg bg : UInt16) : (d.drawDirtyLine line text fg bg).screen =
      paint (lineCells line (newChars line text) fg bg) d.screen := by
  obtain ⟨row, -, heq⟩ := d.drawDirtyLine_eq line text fg bg
  rw [heq]
  apply repaint_eq_paint columns_apart
  intro col hmem hclean
  exact h.shown_of_clean (mem_columns.mp hmem) hclean

theorem drawDirtyLine_redraws (h : d.Coherent) (line : Fin numLines) (text : List Char)
    (fg bg : UInt16) :
    Redraws (lineCells line (newChars line text) fg bg) d (d.drawDirtyLine line text fg bg) := by
  have hscreen := screen_drawDirtyLine h line text fg bg
  obtain ⟨row, hrow, heq⟩ := d.drawDirtyLine_eq line text fg bg
  refine ⟨hscreen, ?_, ?_⟩
  · intro line' hvalid col hcol
    rw [hscreen]
    rw [heq] at hvalid ⊢
    by_cases hline : line' = line
    · subst hline
      have hshown : (cell line' col ((newChars line' text).get col) fg bg).ShownBy
          (paint (lineCells line' (newChars line' text) fg bg) d.screen) :=
        shownBy_paint lineCells_apart (mem_lineCells hcol)
      simpa [hrow col hcol] using hshown
    -- Another line is cached as before, and shown beside this one.
    · have hne : line ≠ line' := Ne.symm hline
      simp only [get_set_of_ne _ _ hne] at hvalid ⊢
      apply (h.line_shown line' hvalid col hcol).paint
      intro other hmem
      obtain ⟨col', -, rfl⟩ := exists_of_mem_lineCells hmem
      exact cell_apart (Or.inl (Fin.val_ne_of_ne hline))
  · intro hphase
    rw [hscreen]
    rw [heq] at hphase ⊢
    apply (h.badge_shown hphase).paint
    intro other hmem
    obtain ⟨col, hcol, rfl⟩ := exists_of_mem_lineCells hmem
    exact (cell_apart_badge hcol).symm

theorem renderSyncIndicator_redraws (h : d.Coherent) {syncPhase : UInt8}
    (hphase : syncPhase ≠ 0xFF) :
    Redraws [badge syncPhase] d (d.renderSyncIndicator syncPhase) := by
  by_cases hlast : syncPhase = d.lastSyncPhase
  -- The phase is drawn already, and painting it again changes nothing.
  · have hshown : (badge syncPhase).ShownBy d.screen := by
      rw [hlast] at hphase ⊢
      exact h.badge_shown hphase
    rw [renderSyncIndicator, if_pos hlast]
    exact ⟨hshown.onto_eq.symm, h⟩
  · rw [renderSyncIndicator_of_ne hlast]
    refine ⟨rfl, ?_, ?_⟩
    · intro line hvalid col hcol
      exact (h.line_shown line hvalid col hcol).onto (cell_apart_badge hcol)
    · intro _
      exact shownBy_onto

/-- Everything that a dashboard has on the screen. -/
def dashboardLayers (args : DashboardArgs) : List (Layer Pixel UInt16) :=
  [lineCells 0 (newChars 0 args.line0) 0x07FF 0x0000,
    [badge args.syncPhase],
    lineCells 1 (newChars 1 args.line1) 0xFFFF 0x0000,
    lineCells 2 (newChars 2 args.line2.1) args.line2.2 0x0000,
    lineCells 3 (newChars 3 args.line3) 0xFFFF 0x0000,
    lineCells 4 (newChars 4 args.line4) 0xCE79 0x0000,
    lineCells 5 (newChars 5 args.line5.1) args.line5.2 0x0000,
    lineCells 6 (newChars 6 args.line6.1) args.line6.2 0x0000].flatten

theorem renderDashboard_redraws (h : d.Coherent) {args : DashboardArgs}
    (hphase : args.syncPhase ≠ 0xFF) :
    Redraws (dashboardLayers args) d (d.renderDashboard args) := by
  have h0 := drawDirtyLine_redraws h 0 args.line0 0x07FF 0x0000
  have hbadge := renderSyncIndicator_redraws h0.coherent hphase
  have h1 := drawDirtyLine_redraws hbadge.coherent 1 args.line1 0xFFFF 0x0000
  have h2 := drawDirtyLine_redraws h1.coherent 2 args.line2.1 args.line2.2 0x0000
  have h3 := drawDirtyLine_redraws h2.coherent 3 args.line3 0xFFFF 0x0000
  have h4 := drawDirtyLine_redraws h3.coherent 4 args.line4 0xCE79 0x0000
  have h5 := drawDirtyLine_redraws h4.coherent 5 args.line5.1 args.line5.2 0x0000
  have h6 := drawDirtyLine_redraws h5.coherent 6 args.line6.1 args.line6.2 0x0000
  exact h0.trans (hbadge.trans (h1.trans (h2.trans (h3.trans (h4.trans (h5.trans
    (h6.trans (.refl h6.coherent))))))))

/-! ### Runs -/

theorem coherent_init (d : St7735) : d.init.Coherent where
  line_shown line hvalid := by
    -- A cleared cache says nothing of the screen.
    have hinvalid : d.init.cachedValid.get line = false := Vector.getElem_replicate line.isLt
    rw [hinvalid] at hvalid
    cases hvalid
  badge_shown hphase := absurd rfl hphase

/-- Every dashboard covers the same pixels. -/
theorem covered_dashboardLayers (args args' : DashboardArgs) {p : Pixel} :
    Covered (dashboardLayers args) p ↔ Covered (dashboardLayers args') p := by
  simp only [dashboardLayers, List.flatten_cons, List.flatten_nil, covered_append,
    covered_lineCells, covered_badge]

/-- The dashboards drawn one after another. -/
def run (d : St7735) (calls : List DashboardArgs) : St7735 := calls.foldl renderDashboard d

theorem run_cons (d : St7735) (args : DashboardArgs) (calls : List DashboardArgs) :
    d.run (args :: calls) = (d.renderDashboard args).run calls := List.foldl_cons ..

theorem run_concat (d : St7735) (calls : List DashboardArgs) (last : DashboardArgs) :
    d.run (calls ++ [last]) = (d.run calls).renderDashboard last := List.foldl_concat ..

/-- A run paints all its dashboards. -/
theorem run_redraws (h : d.Coherent) {calls : List DashboardArgs}
    (hphase : ∀ args ∈ calls, args.syncPhase ≠ 0xFF) :
    Redraws (calls.flatMap dashboardLayers) d (d.run calls) := by
  induction calls generalizing d with
  | nil => exact .refl h
  | cons args calls ih =>
    obtain ⟨hfirst, hrest⟩ := List.forall_mem_cons.mp hphase
    have hredraws := renderDashboard_redraws h hfirst
    rw [List.flatMap_cons, run_cons]
    exact hredraws.trans (ih hredraws.coherent hrest)

/-- The last dashboard of a run hides the others. -/
theorem screen_run_concat (h : d.Coherent) {calls : List DashboardArgs} {last : DashboardArgs}
    (hphase : ∀ args ∈ calls ++ [last], args.syncPhase ≠ 0xFF) :
    (d.run (calls ++ [last])).screen = (d.renderDashboard last).screen := by
  have hlast : last.syncPhase ≠ 0xFF := hphase last (by simp)
  have hcalls := run_redraws h fun args hmem => hphase args (List.mem_append_left _ hmem)
  rw [run_concat, (renderDashboard_redraws hcalls.coherent hlast).screen_eq,
    (renderDashboard_redraws h hlast).screen_eq, hcalls.screen_eq]
  -- All that the earlier dashboards covered is covered by the last one.
  apply paint_paint
  rintro p ⟨layer, hmem, hsome⟩
  obtain ⟨args, -, hmem⟩ := List.mem_flatMap.mp hmem
  exact (covered_dashboardLayers args last).mp ⟨layer, hmem, hsome⟩

/-! ### What is cached after a dashboard -/

/-- A dashboard leaves every line valid. -/
theorem valid_renderDashboard (d : St7735) (args : DashboardArgs) (line : Fin numLines) :
    (d.renderDashboard args).cachedValid.get line = true := by
  have hlt : line.val < 7 := line.isLt
  simp (disch := decide) only [renderDashboard, valid_drawDirtyLine,
    cachedValid_renderSyncIndicator]
  omega

theorem lastSyncPhase_renderDashboard (d : St7735) (args : DashboardArgs) :
    (d.renderDashboard args).lastSyncPhase = args.syncPhase := by
  simp (disch := decide) only [renderDashboard, lastSyncPhase_drawDirtyLine,
    lastSyncPhase_renderSyncIndicator]

/-- What a run of dashboards leaves on the screen is what its last one draws on a screen
just cleared. All along, what is cached is what is shown; and no line and no badge is
drawn on the area of another. -/
theorem dirty_regions_exact (d : St7735) (calls : List DashboardArgs) (last : DashboardArgs)
    (hphase : ∀ args ∈ calls ++ [last], args.syncPhase ≤ 4) :
    (d.init.run (calls ++ [last])).screen = (d.init.renderDashboard last).screen ∧
      (∀ line : Fin numLines, (d.init.run (calls ++ [last])).cachedValid.get line = true) ∧
      (d.init.run (calls ++ [last])).lastSyncPhase = last.syncPhase ∧
      (∀ shown, shown <+: calls ++ [last] → (d.init.run shown).Coherent) ∧
      (∀ (d' : St7735) (line line' : Fin numLines) (text : List Char) (fg bg : UInt16),
        line' ≠ line →
          Set.EqOn (d'.drawDirtyLine line text fg bg).screen d'.screen (lineArea line')) ∧
      (∀ (d' : St7735) (line : Fin numLines) (text : List Char) (fg bg : UInt16),
        Set.EqOn (d'.drawDirtyLine line text fg bg).screen d'.screen badgeArea) ∧
      ∀ (d' : St7735) (line : Fin numLines) (syncPhase : UInt8),
        Set.EqOn (d'.renderSyncIndicator syncPhase).screen d'.screen (lineArea line) := by
  have hne : ∀ args ∈ calls ++ [last], args.syncPhase ≠ 0xFF := by
    intro args hmem heq
    have hle := hphase args hmem
    rw [heq] at hle
    exact absurd hle (by decide)
  refine ⟨screen_run_concat (coherent_init d) hne, ?_, ?_, ?_, ?_, ?_, ?_⟩
  · intro line
    rw [run_concat]
    exact valid_renderDashboard _ _ line
  · rw [run_concat]
    exact lastSyncPhase_renderDashboard _ _
  · intro shown hshown
    exact (run_redraws (coherent_init d) fun args hmem => hne args (hshown.subset hmem)).coherent
  · intro d' line line' text fg bg hline p hp
    exact screen_drawDirtyLine_of_notMem d' line text fg bg
      (notMem_lineArea_of_line (Fin.val_ne_of_ne hline) hp)
  · intro d' line text fg bg p hp
    exact screen_drawDirtyLine_of_notMem d' line text fg bg (notMem_lineArea_of_badge hp)
  · intro d' line syncPhase p hp
    exact screen_renderSyncIndicator_of_notMem d' syncPhase fun hbadge =>
      notMem_lineArea_of_badge hbadge hp

/-- The first dashboard that the firmware draws. -/
def bootArgs : DashboardArgs where
  localNodeId := 0x1A2B3C4D
  channel := 15
  freqStr := "2.425 GHz".toList
  storageMode := .ramOnly
  rxCount := 0
  txCount := 0
  sramUsed := 0
  dropped := 0
  peer1 := none
  peer2 := none
  blePin := none
  btnActive := false
  syncPhase := 0

/-- A packet of the clipboard has gone out, and the badge begins to pulsate. -/
def syncArgs : DashboardArgs := { bootArgs with txCount := 1, syncPhase := mainSyncPhase 8 }

theorem dirty_regions_exact_sync :
    (((new fun _ => 0).init).run [bootArgs, syncArgs]).screen =
      ((new fun _ => 0).init.renderDashboard syncArgs).screen := by
  have hphase : ∀ args ∈ [bootArgs] ++ [syncArgs], args.syncPhase ≤ 4 := by
    simp [bootArgs, syncArgs, mainSyncPhase_le]
  exact (dirty_regions_exact (new fun _ => 0) [bootArgs] syncArgs hphase).1

end St7735

end Gibberish.Firmware
