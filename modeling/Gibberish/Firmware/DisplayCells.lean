/-
# What the display draws

Each drawing function of the driver as the layer that it puts on the screen. The cells of
the lines and the badge lie apart, and a line or the badge is drawn on its own area only.
The fast path of a line is a repaint that leaves out the cells cached as they are.
-/

import Gibberish.Firmware.Display

set_option autoImplicit false

namespace Gibberish.Firmware

open Gibberish.Foundation Layer

section Vectors

variable {α : Type} {n : ℕ} (xs : Vector α n) {i j : Fin n} (x : α)

@[simp] theorem get_set_self (i : Fin n) : (xs.set i x i.isLt).get i = x :=
  Vector.getElem_set_self i.isLt

theorem get_set_of_ne (h : i ≠ j) : (xs.set i x i.isLt).get j = xs.get j :=
  Vector.getElem_set_ne i.isLt j.isLt (Fin.val_ne_of_ne h)

@[simp] theorem set_get_self (i : Fin n) : xs.set i (xs.get i) i.isLt = xs :=
  Vector.set_getElem_self i.isLt

end Vectors

/-! ### Windows -/

section Windows

variable {x0 y0 x1 y1 : ℕ} {pixel : ℕ → ℕ → UInt16} {p : Pixel}

theorem isSome_window : (window x0 y0 x1 y1 pixel p).isSome ↔
    x0 ≤ p.1.val ∧ p.1.val ≤ x1 ∧ y0 ≤ p.2.val ∧ p.2.val ≤ y1 := by
  rw [window]
  split <;> simp [*]

/-- The cell of a character of a line. -/
def cell (line col : ℕ) (c : UInt8) (fg bg : UInt16) : Layer Pixel UInt16 :=
  charCell (2 + col * 6) (2 + line * 11) (Char.ofNat c.toNat) fg bg

variable {line col : ℕ} {c : UInt8} {fg bg : UInt16}

theorem isSome_cell : (cell line col c fg bg p).isSome ↔
    2 + col * 6 ≤ p.1.val ∧ p.1.val ≤ 2 + col * 6 + 5 ∧
      2 + line * 11 ≤ p.2.val ∧ p.2.val ≤ 2 + line * 11 + 7 := by
  rw [cell, charCell]
  exact isSome_window

/-- Cells of different places lie apart. -/
theorem cell_apart {line' col' : ℕ} {c' : UInt8} {fg' bg' : UInt16}
    (h : line ≠ line' ∨ col ≠ col') :
    (cell line col c fg bg).Apart (cell line' col' c' fg' bg') := by
  apply apart_of_isSome
  intro p hp hp'
  rw [isSome_cell] at hp hp'
  omega

/-- Every cell of the seven lines fits on the screen. -/
theorem drawChar_eq (hline : line < numLines) (hcol : col < lineChars) (screen : Framebuffer) :
    drawChar (2 + col * 6) (2 + line * 11) (Char.ofNat c.toNat) fg bg screen =
      (cell line col c fg bg).onto screen := by
  have hright : ¬ 2 + col * 6 + 6 > 160 := by
    simp only [lineChars] at hcol
    omega
  have hbottom : ¬ 2 + line * 11 + 8 > 80 := by
    simp only [numLines] at hline
    omega
  exact if_neg (not_or.mpr ⟨hright, hbottom⟩)

end Windows

/-! ### The badge -/

/-- The cells of a text, as far as they fit. -/
def textCells (x y : ℕ) (text : List Char) (fg bg : UInt16) : List (Layer Pixel UInt16) :=
  match text with
  | [] => []
  | c :: rest =>
    if x + 6 > lcdWidth then [] else charCell x y c fg bg :: textCells (x + 6) y rest fg bg

theorem drawText_eq {x y : ℕ} {fg bg : UInt16} (hy : y + 8 ≤ lcdHeight) (text : List Char)
    (screen : Framebuffer) :
    drawText x y text fg bg screen = paint (textCells x y text fg bg) screen := by
  induction text generalizing x screen with
  | nil => rfl
  | cons c rest ih =>
    rw [drawText, textCells]
    -- Where the next character would not fit, both stop.
    split
    · rfl
    · have hfits : drawChar x y c fg bg screen = (charCell x y c fg bg).onto screen := by
        apply if_neg
        omega
      rw [ih, hfits, paint_cons]

theorem covered_textCells {x y : ℕ} {text : List Char} {fg bg : UInt16} {p : Pixel}
    (h : Covered (textCells x y text fg bg) p) :
    x ≤ p.1.val ∧ p.1.val < x + 6 * text.length ∧ y ≤ p.2.val ∧ p.2.val ≤ y + 7 := by
  induction text generalizing x with
  | nil => simp [textCells, Covered] at h
  | cons c rest ih =>
    rw [textCells] at h
    split at h
    · simp [Covered] at h
    · rw [List.length_cons]
      rcases covered_cons.mp h with hfirst | hrest
      · have := isSome_window.mp hfirst
        omega
      · have := ih hrest
        omega

/-- The badge: its block and its label. -/
def badge (syncPhase : UInt8) : Layer Pixel UInt16 :=
  let (fillColor, textColor, label) := badgeLook syncPhase
  let block := window badgeX badgeY (badgeX + badgeW - 1) (badgeY + badgeH - 1) fun _ _ => fillColor
  flatten (block :: textCells (badgeX + 2) badgeY label textColor fillColor)

theorem length_label (syncPhase : UInt8) : (badgeLook syncPhase).2.2.length = 6 := by
  unfold badgeLook
  split_ifs <;> rfl

/-- The label stays on the block. -/
theorem isSome_badge {syncPhase : UInt8} {p : Pixel} : (badge syncPhase p).isSome ↔
    118 ≤ p.1.val ∧ p.1.val ≤ 157 ∧ 2 ≤ p.2.val ∧ p.2.val ≤ 9 := by
  have hlength := length_label syncPhase
  rw [badge, isSome_flatten, covered_cons, isSome_window]
  constructor
  · rintro (hblock | hlabel)
    · exact hblock
    · have hinside := covered_textCells hlabel
      simp only [hlength, badgeX, badgeY] at hinside
      omega
  · exact Or.inl

/-- The cells of the first line end in front of the badge, the other lines are below it. -/
theorem cell_apart_badge {line col : ℕ} {c : UInt8} {fg bg : UInt16} {syncPhase : UInt8}
    (hcol : col < maxCols line) : (cell line col c fg bg).Apart (badge syncPhase) := by
  apply apart_of_isSome
  intro p hp hp'
  rw [isSome_cell] at hp
  rw [isSome_badge] at hp'
  -- Either the line is cut short of the badge, or it starts below it.
  rw [maxCols] at hcol
  split at hcol <;> omega

namespace St7735

variable {d : St7735} {line : Fin numLines} {chars : Vector UInt8 lineChars} {fg bg : UInt16}

/-! ### Lines -/

/-- The cells of a line, from left to right. -/
def lineCells (line : Fin numLines) (chars : Vector UInt8 lineChars) (fg bg : UInt16) :
    List (Layer Pixel UInt16) :=
  (columns line).map fun (col : Fin lineChars) => cell line col (chars.get col) fg bg

theorem mem_columns {col : Fin lineChars} : col ∈ columns line ↔ col.val < maxCols line := by
  simp [columns]

theorem nodup_columns : (columns line).Nodup := (List.nodup_finRange _).filter _

theorem columns_apart : (columns line).Pairwise fun (col col' : Fin lineChars) =>
    (cell line col (chars.get col) fg bg).Apart (cell line col' (chars.get col') fg bg) := by
  apply (List.nodup_iff_pairwise_ne.mp nodup_columns).imp
  intro col col' hne
  exact cell_apart (Or.inr (Fin.val_ne_of_ne hne))

/-- The characters copied into the cache cell by cell. -/
def copyCells (chars : Vector UInt8 lineChars) (cols : List (Fin lineChars))
    (row : Vector UInt8 lineChars) : Vector UInt8 lineChars :=
  cols.foldl (fun row (col : Fin lineChars) => row.set col (chars.get col) col.isLt) row

theorem copyCells_cons (first : Fin lineChars) (cols : List (Fin lineChars))
    (row : Vector UInt8 lineChars) : copyCells chars (first :: cols) row =
      copyCells chars cols (row.set first (chars.get first) first.isLt) := rfl

theorem get_copyCells {cols : List (Fin lineChars)} (row : Vector UInt8 lineChars)
    (col : Fin lineChars) :
    (copyCells chars cols row).get col = if col ∈ cols then chars.get col else row.get col := by
  induction cols generalizing row with
  | nil => simp [copyCells]
  | cons first cols ih =>
    rw [copyCells_cons, ih]
    by_cases hfirst : col = first
    · subst hfirst
      simp
    · rw [get_set_of_ne _ _ (Ne.symm hfirst)]
      simp [hfirst]

/-- A cell that need not be drawn holds its character already. -/
theorem drawCell_eq (d : St7735) (col : Fin lineChars) :
    d.drawCell line chars fg bg col =
      { d with
        screen := if d.dirty line chars fg bg col then
            (cell line col (chars.get col) fg bg).onto d.screen else d.screen
        cachedText :=
          d.cachedText.set line ((d.cachedText.get line).set col (chars.get col) col.isLt)
            line.isLt } := by
  by_cases hdirty : d.dirty line chars fg bg col = true
  · simp only [drawCell, if_pos hdirty, drawChar_eq line.isLt col.isLt]
  -- A clean cell is cached with this very character.
  · have hheld : (d.cachedText.get line).get col = chars.get col := by
      simp only [dirty, Bool.or_eq_true, decide_eq_true_eq, not_or, not_not] at hdirty
      exact hdirty.1.1.2
    simp only [drawCell, if_neg hdirty]
    rw [← hheld]
    simp

/-- A drawn cell leaves the later ones as stale as they are. -/
theorem dirty_drawCell {col col' : Fin lineChars} (hne : col ≠ col') (d : St7735) :
    (d.drawCell line chars fg bg col).dirty line chars fg bg col' =
      d.dirty line chars fg bg col' := by
  have hkept : ((d.drawCell line chars fg bg col).cachedText.get line).get col' =
      (d.cachedText.get line).get col' := by
    rw [drawCell_eq, get_set_self, get_set_of_ne _ _ hne]
  rw [dirty, hkept, dirty, drawCell_eq]

/-- The loop over a line's cells is a repaint that leaves out the clean ones. -/
theorem foldl_drawCell {cols : List (Fin lineChars)} (hnodup : cols.Nodup) (d : St7735) :
    cols.foldl (drawCell line chars fg bg) d =
      { d with
        screen := repaint (d.dirty line chars fg bg)
          (fun (col : Fin lineChars) => cell line col (chars.get col) fg bg) cols d.screen
        cachedText :=
          d.cachedText.set line (copyCells chars cols (d.cachedText.get line)) line.isLt } := by
  induction cols generalizing d with
  | nil => simp [repaint, copyCells]
  | cons col cols ih =>
    obtain ⟨hnotin, hrest⟩ := List.nodup_cons.mp hnodup
    -- No column comes twice, so each cell is judged as at the start.
    have hstale : ∀ col' ∈ cols, (d.drawCell line chars fg bg col).dirty line chars fg bg col' =
        d.dirty line chars fg bg col' := by
      intro col' hmem
      apply dirty_drawCell
      rintro rfl
      exact hnotin hmem
    rw [List.foldl_cons, ih hrest, repaint_congr hstale, drawCell_eq, repaint_cons, copyCells_cons]
    simp

theorem get_of_take_eq {n k : ℕ} {row row' : Vector UInt8 n}
    (h : row.toList.take k = row'.toList.take k) {i : Fin n} (hk : i.val < k) :
    row.get i = row'.get i := by
  have hi := congrArg (fun bytes => bytes[i.val]?) h
  have hget : row[i.val] = row'[i.val] := by
    simpa [List.getElem?_take_of_lt hk] using hi
  exact hget

/-- Outside its line's caches and the screen, a drawn line changes nothing; and it draws
what its cells need, also where it returns at once. -/
theorem drawDirtyLine_eq (d : St7735) (line : Fin numLines) (text : List Char) (fg bg : UInt16) :
    ∃ row, (∀ col : Fin lineChars, col.val < maxCols line →
        row.get col = (newChars line text).get col) ∧
      d.drawDirtyLine line text fg bg =
        { d with
          screen := repaint (d.dirty line (newChars line text) fg bg)
            (fun (col : Fin lineChars) => cell line col ((newChars line text).get col) fg bg)
            (columns line) d.screen
          cachedText := d.cachedText.set line row line.isLt
          cachedFg := d.cachedFg.set line fg line.isLt
          cachedBg := d.cachedBg.set line bg line.isLt
          cachedValid := d.cachedValid.set line true line.isLt } := by
  rw [drawDirtyLine, dif_pos line.isLt]
  dsimp only
  split
  case isTrue hclean =>
    obtain ⟨hvalid, rfl, rfl, htext⟩ := hclean
    have hheld : ∀ col : Fin lineChars, col.val < maxCols line →
        (d.cachedText.get line).get col = (newChars line text).get col := by
      intro col hcol
      exact get_of_take_eq htext hcol
    -- Where the line returns at once, no cell of it would have been drawn.
    have hfresh : ∀ col ∈ columns line,
        d.dirty line (newChars line text) (d.cachedFg.get line) (d.cachedBg.get line) col =
          false := by
      intro col hmem
      rw [dirty, hvalid, hheld col (mem_columns.mp hmem)]
      simp
    have hflag : d.cachedValid.set line true line.isLt = d.cachedValid := by
      rw [← hvalid]
      exact set_get_self _ line
    refine ⟨(d.cachedText.get line), hheld, ?_⟩
    rw [repaint_of_fresh hfresh, hflag]
    simp
  case isFalse =>
    refine ⟨copyCells (newChars line text) (columns line) (d.cachedText.get line), ?_, ?_⟩
    · intro col hcol
      rw [get_copyCells, if_pos (mem_columns.mpr hcol)]
    · rw [foldl_drawCell nodup_columns]

theorem lineCells_apart : (lineCells line chars fg bg).Pairwise Apart :=
  List.pairwise_map.mpr columns_apart

theorem mem_lineCells {col : Fin lineChars} (hcol : col.val < maxCols line) :
    cell line col (chars.get col) fg bg ∈ lineCells line chars fg bg :=
  List.mem_map_of_mem (mem_columns.mpr hcol)

theorem exists_of_mem_lineCells {layer : Layer Pixel UInt16}
    (h : layer ∈ lineCells line chars fg bg) :
    ∃ col : Fin lineChars, col.val < maxCols line ∧
      layer = cell line col (chars.get col) fg bg := by
  obtain ⟨col, hmem, rfl⟩ := List.mem_map.mp h
  exact ⟨col, mem_columns.mp hmem, rfl⟩

/-! ### The badge drawn -/

/-- A badge drawn anew is a block with its label on it. -/
theorem renderSyncIndicator_of_ne {syncPhase : UInt8} (h : syncPhase ≠ d.lastSyncPhase) :
    d.renderSyncIndicator syncPhase =
      { d with screen := (badge syncPhase).onto d.screen, lastSyncPhase := syncPhase } := by
  have hblock (color : UInt16) : fillRect badgeX badgeY badgeW badgeH color d.screen =
      (window badgeX badgeY (badgeX + badgeW - 1) (badgeY + badgeH - 1) fun _ _ => color).onto
        d.screen := rfl
  rw [renderSyncIndicator, if_neg h, badge, onto_flatten]
  simp only [hblock, paint_cons, drawText_eq (show badgeY + 8 ≤ lcdHeight by decide)]

/-! ### What is cached -/

/-- A drawn line is valid, the others as they were. -/
theorem valid_drawDirtyLine (d : St7735) {n : ℕ} (hn : n < numLines) (text : List Char)
    (fg bg : UInt16) : (d.drawDirtyLine n text fg bg).cachedValid.get line = true ↔
      line.val = n ∨ d.cachedValid.get line = true := by
  obtain ⟨drawn, rfl⟩ : ∃ drawn : Fin numLines, drawn.val = n := ⟨⟨n, hn⟩, rfl⟩
  obtain ⟨row, -, heq⟩ := d.drawDirtyLine_eq drawn text fg bg
  rw [heq]
  by_cases hline : line = drawn
  · subst hline
    simp
  · rw [get_set_of_ne _ _ (Ne.symm hline)]
    simp [Fin.val_ne_of_ne hline]

theorem lastSyncPhase_drawDirtyLine (d : St7735) {n : ℕ} (hn : n < numLines) (text : List Char)
    (fg bg : UInt16) : (d.drawDirtyLine n text fg bg).lastSyncPhase = d.lastSyncPhase := by
  obtain ⟨row, -, heq⟩ := d.drawDirtyLine_eq ⟨n, hn⟩ text fg bg
  exact (congrArg lastSyncPhase heq).trans rfl

theorem cachedValid_renderSyncIndicator (d : St7735) (syncPhase : UInt8) :
    (d.renderSyncIndicator syncPhase).cachedValid = d.cachedValid := by
  rw [renderSyncIndicator]
  split <;> rfl

theorem lastSyncPhase_renderSyncIndicator (d : St7735) (syncPhase : UInt8) :
    (d.renderSyncIndicator syncPhase).lastSyncPhase = syncPhase := by
  rw [renderSyncIndicator]
  split
  case isTrue heq => exact heq.symm
  case isFalse => rfl

/-! ### Areas -/

/-- The pixels of a line's cells. -/
def lineArea (line : ℕ) : Set Pixel :=
  {p | 2 ≤ p.1.val ∧ p.1.val < 2 + maxCols line * 6 ∧
    2 + line * 11 ≤ p.2.val ∧ p.2.val < 10 + line * 11}

/-- The pixels of the badge. -/
def badgeArea : Set Pixel :=
  {p | 118 ≤ p.1.val ∧ p.1.val < 158 ∧ 2 ≤ p.2.val ∧ p.2.val < 10}

theorem mem_lineArea {n : ℕ} {p : Pixel} : p ∈ lineArea n ↔
    2 ≤ p.1.val ∧ p.1.val < 2 + maxCols n * 6 ∧ 2 + n * 11 ≤ p.2.val ∧ p.2.val < 10 + n * 11 :=
  Iff.rfl

theorem mem_badgeArea {p : Pixel} : p ∈ badgeArea ↔
    118 ≤ p.1.val ∧ p.1.val < 158 ∧ 2 ≤ p.2.val ∧ p.2.val < 10 := Iff.rfl

theorem maxCols_le (n : ℕ) : maxCols n ≤ lineChars := by
  unfold maxCols
  split <;> decide

/-- The cells of a line fill its area. -/
theorem covered_lineCells {p : Pixel} :
    Covered (lineCells line chars fg bg) p ↔ p ∈ lineArea line := by
  rw [mem_lineArea]
  constructor
  · rintro ⟨layer, hmem, hsome⟩
    obtain ⟨col, hcol, rfl⟩ := exists_of_mem_lineCells hmem
    rw [isSome_cell] at hsome
    omega
  · intro harea
    have hlt : (p.1.val - 2) / 6 < maxCols line := by omega
    obtain ⟨col, hcol⟩ : ∃ col : Fin lineChars, col.val = (p.1.val - 2) / 6 :=
      ⟨⟨_, hlt.trans_le (maxCols_le line)⟩, rfl⟩
    have hsome : (cell line col (chars.get col) fg bg p).isSome := by
      rw [isSome_cell]
      omega
    exact ⟨_, mem_lineCells (hcol ▸ hlt), hsome⟩

theorem covered_badge {syncPhase : UInt8} {p : Pixel} :
    Covered [badge syncPhase] p ↔ p ∈ badgeArea := by
  have hsingle : Covered [badge syncPhase] p ↔ (badge syncPhase p).isSome := by
    simp [Covered]
  rw [hsingle, isSome_badge, mem_badgeArea]
  omega

theorem notMem_lineArea_of_line {n n' : ℕ} (hne : n' ≠ n) {p : Pixel} (hp : p ∈ lineArea n') :
    p ∉ lineArea n := by
  rw [mem_lineArea] at hp ⊢
  omega

/-- The first line ends in front of the badge, the others are below it. -/
theorem notMem_lineArea_of_badge {n : ℕ} {p : Pixel} (hp : p ∈ badgeArea) : p ∉ lineArea n := by
  rw [mem_badgeArea] at hp
  rw [mem_lineArea, maxCols]
  split <;> omega

/-- A line is drawn on its own area only, whatever is cached. -/
theorem screen_drawDirtyLine_of_notMem (d : St7735) (line : Fin numLines) (text : List Char)
    (fg bg : UInt16) {p : Pixel} (hp : p ∉ lineArea line) :
    (d.drawDirtyLine line text fg bg).screen p = d.screen p := by
  obtain ⟨row, -, heq⟩ := d.drawDirtyLine_eq line text fg bg
  rw [heq]
  apply repaint_of_none
  intro col hmem
  rw [← Option.not_isSome_iff_eq_none]
  intro hsome
  exact hp (covered_lineCells.mp ⟨_, mem_lineCells (mem_columns.mp hmem), hsome⟩)

theorem screen_renderSyncIndicator_of_notMem (d : St7735) (syncPhase : UInt8) {p : Pixel}
    (hp : p ∉ badgeArea) : (d.renderSyncIndicator syncPhase).screen p = d.screen p := by
  by_cases hlast : syncPhase = d.lastSyncPhase
  · rw [renderSyncIndicator, if_pos hlast]
  · rw [renderSyncIndicator_of_ne hlast]
    apply onto_of_none
    rw [← Option.not_isSome_iff_eq_none, isSome_badge]
    rw [mem_badgeArea] at hp
    omega

end St7735

end Gibberish.Firmware
