import Criteria.Pattern.Reader
import Criteria.Proofs.Pattern.Shapes

/-!
# Texts with a bar between them

The text of a pattern may list texts that are to be matched as they are, with a bar between each two
and with the characters escaped that have a meaning of their own (`Pattern.bars`). Read between the
brackets that tie it to a place, it is the pattern that tries the texts in turn
(`Pattern.anchored?_bars`).
-/

namespace Criteria

variable {α : Type}

namespace Pattern

/-! ### Characters and texts -/

/-- The members that a character stands for, case variants included where case is ignored. -/
def letter (ignoreCase : Bool) (c : Char) : CharSet :=
  if ignoreCase && Text.caseVariants c != [c] then .folded (.only c) else .only c

theorem Shape.toPattern_ofChar (ignoreCase : Bool) (c : Char) :
    (Shape.ofChar ignoreCase c).toPattern = .one (letter ignoreCase c) := by
  unfold Shape.ofChar letter
  split_ifs <;> rfl

theorem Shape.fixed_ofChar (ignoreCase : Bool) {c : Char} (hc : c.toNat < 128) :
    (Shape.ofChar ignoreCase c).Fixed := by
  unfold Shape.ofChar
  split_ifs
  · exact .one (CharSet.known_folded_only hc)
  · exact .chars [c]

/-- The parts that a text is read as. -/
def textParts (ignoreCase : Bool) (cs : List Char) : List Shape :=
  (cs.map (Shape.ofChar ignoreCase)).foldr Shape.prepend []

theorem Shape.FixedParts.prepend {a : Shape} {as : List Shape} (ha : a.Fixed) (has : FixedParts as) :
    FixedParts (prepend a as) := by
  unfold Shape.prepend
  split
  · exact List.forall_mem_cons.2 ⟨.chars _, (List.forall_mem_cons.1 has).2⟩
  · exact List.forall_mem_cons.2 ⟨ha, has⟩

theorem fixedParts_textParts (ignoreCase : Bool) {cs : List Char} (hcs : ∀ c ∈ cs, c.toNat < 128) :
    Shape.FixedParts (textParts ignoreCase cs) := by
  induction cs with
  | nil => nofun
  | cons c cs ih =>
    obtain ⟨hc, hcs⟩ := List.forall_mem_cons.1 hcs
    exact (ih hcs).prepend (Shape.fixed_ofChar ignoreCase hc)

theorem sequence_ofChar (ignoreCase : Bool) (cs : List Char) :
    Shape.sequence (cs.map (Shape.ofChar ignoreCase)) = .ofParts (textParts ignoreCase cs) := by
  have hparts : ∀ a ∈ cs.map (Shape.ofChar ignoreCase), a.parts = [a] := by
    refine List.forall_mem_map.2 fun c _ => ?_
    unfold Shape.ofChar
    split_ifs <;> rfl
  rw [Shape.sequence, List.flatMap_congr hparts, textParts]
  simp

/-- The parts of a text match the text, one character after the other. -/
theorem consumeAll_textParts (ignoreCase : Bool) (cs text : List Char) (k : List Char → Option α) :
    Shape.consumeAll (textParts ignoreCase cs) text k =
      (behind (cs.map (letter ignoreCase)) text).bind k := by
  rw [textParts, Shape.consumeAll_foldr_prepend]
  induction cs generalizing text with
  | nil => rfl
  | cons c cs ih =>
    rw [List.map_cons, Shape.consumeAll, Shape.toPattern_ofChar, List.map_cons]
    rcases text with _ | ⟨d, text⟩
    · rfl
    · rw [consume_one_cons, behind]
      split_ifs
      · exact ih text
      · rfl

/-! ### Reading -/

/-- What has a meaning of its own is taken literally behind a backslash. -/
theorem readEscape_of_isMeta {c : Char} (h : isMeta c = true) (cs : List Char) :
    readEscape (c :: cs) = some (.char c, cs) := by
  have table : ∀ d ∈ "\\.+*?()|[]\x7b\x7d^$#&-~".toList, isEscapable d = true := by decide
  have hescapable : isEscapable c = true := table c (List.contains_iff_mem.1 h)
  rw [readEscape, if_pos hescapable]
  all_goals
    rintro rfl
    exact absurd h (by decide)

namespace Reading

/-- Whether reading a text comes to another reading with a rest of the text, if there are as many steps
as characters to begin with, and then again. -/
def Leads (r : Reading) (text : List Char) (r' : Reading) (rest : List Char) : Prop :=
  ∀ n, text.length ≤ n → ∃ m, rest.length ≤ m ∧ run n r text = run m r' rest

theorem Leads.refl (r : Reading) (text : List Char) : r.Leads text r text := fun n hn => ⟨n, hn, rfl⟩

theorem Leads.trans {r r' r'' : Reading} {text mid rest : List Char} (h : r.Leads text r' mid)
    (h' : r'.Leads mid r'' rest) : r.Leads text r'' rest := by
  intro n hn
  obtain ⟨m, hm, hrun⟩ := h n hn
  rw [hrun]
  exact h' m hm

theorem Leads.of_step {r r' : Reading} {c : Char} {cs rest : List Char}
    (h : r.step c cs = some (r', rest)) (hle : rest.length ≤ cs.length) :
    r.Leads (c :: cs) r' rest := by
  intro n hn
  rcases n with _ | n
  · cases hn
  · exact ⟨n, Nat.le_trans hle (Nat.le_of_succ_le_succ hn), by rw [run, h]⟩

theorem Leads.run_eq {r r' : Reading} {text : List Char} (h : r.Leads text r' []) :
    run text.length r text = r'.finish := by
  obtain ⟨m, -, hrun⟩ := h _ (Nat.le_refl _)
  rw [hrun]
  cases m <;> rfl

/-- The reading with the characters of a text at its end. -/
def spell (r : Reading) (cs : List Char) : Reading :=
  { r with group := { r.group with elements :=
      (cs.map fun c => .piece ⟨.ofChar r.group.switches.ignoreCase c, 0⟩).reverse ++
        r.group.elements } }

theorem spell_cons (r : Reading) (c : Char) (cs : List Char) :
    r.spell (c :: cs) = (r.push (.ofChar r.group.switches.ignoreCase c)).spell cs := by
  simp [spell, push, OpenGroup.push]

theorem leads_escape_cons (r : Reading) (c : Char) (cs : List Char) :
    r.Leads (escape [c] ++ cs) (r.push (.ofChar r.group.switches.ignoreCase c)) cs := by
  rw [escape_cons]
  split_ifs with hmeta
  · have hstep : r.step '\\' (c :: cs) = some (r.push (.ofChar r.group.switches.ignoreCase c), cs) := by
      simp [step, readEscape_of_isMeta hmeta]
    exact .of_step hstep (Nat.le_succ _)
  · have hstep : r.step c cs = some (r.push (.ofChar r.group.switches.ignoreCase c), cs) := by
      rw [step]
      all_goals
        rintro rfl
        exact hmeta (by decide)
    exact .of_step hstep (Nat.le_refl _)

/-- Reading a text with its characters escaped. -/
theorem leads_escape (r : Reading) (cs rest : List Char) :
    r.Leads (escape cs ++ rest) (r.spell cs) rest := by
  induction cs generalizing r with
  | nil => exact .refl r rest
  | cons c cs ih =>
    have hsplit : escape (c :: cs) ++ rest = escape [c] ++ (escape cs ++ rest) := by
      simp only [escape_cons, escape_nil]
      split_ifs <;> rfl
    rw [hsplit, spell_cons]
    exact (leads_escape_cons r c _).trans (ih _)

/-- The reading behind texts with a bar between each two. -/
def spellAny (r : Reading) : List (List Char) → Reading
  | [] => r
  | [cs] => r.spell cs
  | cs :: ds :: texts => (r.spell cs).nextBranch.spellAny (ds :: texts)

end Reading

/-- Texts with a bar between each two and with their characters escaped. -/
def bars (texts : List (List Char)) : List Char := ['|'].intercalate (texts.map escape)

theorem bars_cons_cons (a b : List Char) (texts : List (List Char)) :
    bars (a :: b :: texts) = escape a ++ '|' :: bars (b :: texts) := by
  simp [bars]

namespace Reading

/-- Reading texts with a bar between each two. -/
theorem leads_bars (r : Reading) (texts : List (List Char)) (rest : List Char) :
    r.Leads (bars texts ++ rest) (r.spellAny texts) rest := by
  induction texts generalizing r with
  | nil => exact .refl r rest
  | cons cs texts ih =>
    rcases texts with _ | ⟨ds, texts⟩
    · have hbars : bars [cs] = escape cs := by simp [bars]
      rw [hbars]
      exact leads_escape r cs rest
    · rw [bars_cons_cons, List.append_assoc]
      exact (leads_escape r cs _).trans ((Leads.of_step rfl (Nat.le_refl _)).trans (ih _))

end Reading

/-- The piece that a text is read as. -/
def textPiece (ignoreCase : Bool) (cs : List Char) : Piece :=
  ⟨.ofParts (textParts ignoreCase cs), Piece.depthOf (List.replicate cs.length 0)⟩

theorem Reading.branch_spell {r : Reading} (h : r.group.elements = []) (cs : List Char) :
    (r.spell cs).group.branch = textPiece r.group.switches.ignoreCase cs := by
  rw [textPiece, ← sequence_ofChar]
  simp [spell, OpenGroup.branch, h, Element.shape?, Element.depth, Function.comp_def]

/-- The branches behind texts with a bar between each two. -/
theorem Reading.branches_spellAny {r : Reading} (h : r.group.elements = []) {texts : List (List Char)}
    (hne : texts ≠ []) :
    (r.spellAny texts).group.branch :: (r.spellAny texts).group.branches =
      (texts.map (textPiece r.group.switches.ignoreCase)).reverse ++ r.group.branches := by
  induction texts generalizing r with
  | nil => exact absurd rfl hne
  | cons cs texts ih =>
    rcases texts with _ | ⟨ds, texts⟩
    · exact congrArg (· :: r.group.branches) (branch_spell h cs)
    · have hnext := ih (r := (r.spell cs).nextBranch) rfl (List.cons_ne_nil _ _)
      have hbranch : (r.spell cs).nextBranch.group.branches =
          textPiece r.group.switches.ignoreCase cs :: r.group.branches :=
        congrArg (· :: r.group.branches) (branch_spell h cs)
      rw [spellAny, hnext, hbranch, List.map_cons (a := cs), List.reverse_cons, List.append_assoc]
      rfl

theorem Reading.outer_spellAny (r : Reading) (texts : List (List Char)) :
    (r.spellAny texts).outer = r.outer ∧ (r.spellAny texts).group.numbered = r.group.numbered := by
  induction texts generalizing r with
  | nil => exact ⟨rfl, rfl⟩
  | cons cs texts ih =>
    rcases texts with _ | ⟨ds, texts⟩
    · exact ⟨rfl, rfl⟩
    · exact ih (r.spell cs).nextBranch

/-- The shape of a choice between texts. -/
def anyText (ignoreCase : Bool) (texts : List (List Char)) : Shape :=
  Shape.choice (texts.map fun cs => .ofParts (textParts ignoreCase cs))

/-- A shape tied to the place where it is tried. -/
def Shape.tied (a : Shape) : Shape := choice [sequence [.anchor .textStart, a]]

theorem Reading.choice_spellAny {r : Reading} (helements : r.group.elements = [])
    (hbranches : r.group.branches = []) {texts : List (List Char)} (hne : texts ≠ []) :
    (r.spellAny texts).group.choice = ⟨anyText r.group.switches.ignoreCase texts,
      Piece.depthOf ((texts.map (textPiece r.group.switches.ignoreCase)).map Piece.depth)⟩ := by
  rw [OpenGroup.choice, branches_spellAny helements hne, hbranches, List.append_nil, List.reverse_reverse,
    List.map_map]
  rfl

theorem Piece.depthOf_le {ds : List Nat} {n : Nat} (h : ∀ d ∈ ds, d ≤ n) : depthOf ds ≤ n + 1 := by
  have hmax (m : Nat) (hm : m ≤ n) : ds.foldl max m ≤ n := by
    induction ds generalizing m with
    | nil => exact hm
    | cons d ds ih =>
      obtain ⟨hd, hds⟩ := List.forall_mem_cons.1 h
      exact ih hds _ (Nat.max_le.2 ⟨hm, hd⟩)
  unfold depthOf
  split
  · exact Nat.zero_le _
  · exact Nat.le_succ_of_le (h _ List.mem_cons_self)
  · exact Nat.succ_le_succ (hmax 0 (Nat.zero_le _))

/-- Texts with a bar between each two are not nested deep. -/
theorem depth_bars (ignoreCase : Bool) (texts : List (List Char)) :
    Piece.depthOf ((texts.map (textPiece ignoreCase)).map Piece.depth) ≤ 2 := by
  refine Piece.depthOf_le (List.forall_mem_map.2 (List.forall_mem_map.2 fun cs _ => ?_))
  exact Piece.depthOf_le fun d hd => Nat.le_of_eq (List.eq_of_mem_replicate hd)

/-- Nothing has been read. -/
def Reading.start (ignoreCase : Bool) : Reading := { group := { switches := { ignoreCase } } }

/-- The end of a reading that is tied to its place. -/
theorem Reading.finish_tied (ignoreCase : Bool) (piece : Piece) (names : List (List Char)) :
    finish ⟨((start ignoreCase).push (.anchor .textStart)).group.push piece, [], names⟩ =
      if piece.depth + 1 ≤ depthLimit ∧ piece.shape.tied.weight + 128 ≤ weightLimit then
        some piece.shape.tied.toPattern
      else none := by
  have hchoice : (((start ignoreCase).push (.anchor .textStart)).group.push piece).choice =
      ⟨piece.shape.tied, piece.depth + 1⟩ := by
    simp [start, push, OpenGroup.push, OpenGroup.choice, OpenGroup.branch, Element.shape?, Element.depth,
      Piece.depthOf, Shape.tied]
  simp [finish, hchoice]

/-- **The pattern of texts with a bar between each two tries them in turn**, if it is not too large. -/
theorem anchored?_bars (ignoreCase : Bool) {texts : List (List Char)} (hne : texts ≠ [])
    {source : String} (hsource : source.toList = bars texts) :
    anchored? ignoreCase source =
      if (anyText ignoreCase texts).tied.weight + 128 ≤ Reading.weightLimit then
        some (anyText ignoreCase texts).tied.toPattern
      else none := by
  let tie : Reading := (Reading.start ignoreCase).push (.anchor .textStart)
  let inner : Reading := tie.openGroup { ignoreCase } false
  let depth := Piece.depthOf ((texts.map (textPiece ignoreCase)).map Piece.depth)
  let closed : Reading :=
    ⟨tie.group.push ⟨anyText ignoreCase texts, depth + 1⟩, [], (inner.spellAny texts).names⟩
  have hpiece : (inner.spellAny texts).group.piece = ⟨anyText ignoreCase texts, depth + 1⟩ := by
    rw [OpenGroup.piece, (inner.outer_spellAny texts).2, Reading.choice_spellAny rfl rfl hne]
    rfl
  have hclose : (inner.spellAny texts).closeGroup = some closed := by
    rw [Reading.closeGroup, (inner.outer_spellAny texts).1, hpiece]
    rfl
  have hleads : (Reading.start ignoreCase).Leads ("^(?:".toList ++ source.toList ++ [')']) closed [] := by
    have htie : (Reading.start ignoreCase).Leads ('^' :: '(' :: '?' :: ':' :: (bars texts ++ [')'])) tie
        ('(' :: '?' :: ':' :: (bars texts ++ [')'])) := .of_step rfl (Nat.le_refl _)
    have hinner : tie.Leads ('(' :: '?' :: ':' :: (bars texts ++ [')'])) inner (bars texts ++ [')']) :=
      .of_step rfl (Nat.le_add_right _ 2)
    have hstep : (inner.spellAny texts).step ')' [] = some (closed, []) := by
      rw [Reading.step, hclose]
      rfl
    rw [hsource, List.append_assoc]
    exact (htie.trans hinner).trans
      ((inner.leads_bars texts [')']).trans (.of_step hstep (Nat.le_refl _)))
  have hdepth : depth + 1 + 1 ≤ Reading.depthLimit :=
    Nat.le_trans (Nat.add_le_add_right (depth_bars ignoreCase texts) 2) (by decide)
  rw [anchored?, read?, ← Reading.start, hleads.run_eq, Reading.finish_tied]
  simp [hdepth]

/-! ### Matching -/

/-- The parts behind the condition of a tied shape. -/
def Shape.behindTie (a : Shape) : List Shape := (ofParts (a.parts.foldr prepend [])).parts

theorem Shape.tied_eq (a : Shape) : a.tied = ofParts (.anchor .textStart :: a.behindTie) := by
  have hsequence : sequence [.anchor .textStart, a] =
      ofParts (.anchor .textStart :: a.parts.foldr prepend []) := by
    simp only [sequence, List.flatMap_cons, List.flatMap_nil, List.append_nil]
    rfl
  rw [tied, hsequence, behindTie]
  rcases a.parts.foldr prepend [] with _ | ⟨b, inner⟩ <;> rfl

/-- A shape that takes something, tied to the place where it is tried, is the pattern of the shape at
the start of a text. -/
theorem Shape.exists_tied {a : Shape} (hplain : a.Plain)
    (hnil : a.toPattern.consume [] some = (none : Option (List Char))) :
    ∃ q : Pattern, a.tied.toPattern = .seq (.anchor .textStart) q ∧ q.plain = true ∧
      ∀ text (k : List Char → Option (List Char)), q.consume text k = a.toPattern.consume text k := by
  have hconsume (text : List Char) (k : List Char → Option (List Char)) :
      consumeAll a.behindTie text k = a.toPattern.consume text k := by
    rw [behindTie, consumeAll_parts, consume_ofParts, consumeAll_foldr_prepend, consumeAll_parts]
  have hpattern : a.tied.toPattern = .seq (.anchor .textStart) (ofParts a.behindTie).toPattern := by
    rw [tied_eq]
    rcases hparts : a.behindTie with _ | ⟨b, bs⟩
    · rw [← hconsume, hparts] at hnil
      cases hnil
    · rfl
  refine ⟨_, hpattern, ?_, fun text k => by rw [consume_ofParts, hconsume]⟩
  exact plain_ofParts (plain_ofParts (plain_foldr_prepend hplain.parts)).parts

theorem Shape.Fixed.plain {a : Shape} (h : a.Fixed) : a.Plain := by
  cases h with
  | chars cs => exact plain_chars cs
  | one => rfl

section Texts

variable {ignoreCase : Bool} {texts : List (List Char)}

theorem plain_anyText (hascii : ∀ cs ∈ texts, ∀ c ∈ cs, c.toNat < 128) :
    (anyText ignoreCase texts).Plain := by
  refine Shape.plain_choice (List.forall_mem_map.2 fun cs hcs => Shape.plain_ofParts fun a ha => ?_)
  exact (fixedParts_textParts ignoreCase (hascii cs hcs) a ha).plain

/-- A choice between texts takes the first of them that the text starts with. -/
theorem consume_anyText (hne : texts ≠ []) (hascii : ∀ cs ∈ texts, ∀ c ∈ cs, c.toNat < 128)
    (text : List Char) (k : List Char → Option α) :
    (anyText ignoreCase texts).toPattern.consume text k =
      texts.findSome? fun cs => (behind (cs.map (letter ignoreCase)) text).bind k := by
  have hmap : (texts.map fun cs => Shape.ofParts (textParts ignoreCase cs)) =
      (texts.map (textParts ignoreCase)).map Shape.ofParts := by
    rw [List.map_map]
    rfl
  rw [anyText, hmap, Shape.consume_choice (by simpa using hne)
    (List.forall_mem_map.2 fun cs hcs => fixedParts_textParts ignoreCase (hascii cs hcs)),
    List.findSome?_map]
  exact congrArg (texts.findSome? ·) (funext fun cs => consumeAll_textParts ignoreCase cs text k)

/-- **Texts with a bar between each two are tried in turn at the start of a text.** -/
theorem exists_of_anchored?_bars (hne : texts ≠ []) (hascii : ∀ cs ∈ texts, ∀ c ∈ cs, c.toNat < 128)
    (htexts : ∀ cs ∈ texts, cs ≠ []) {source : String} (hsource : source.toList = bars texts)
    {p : Pattern} (h : anchored? ignoreCase source = some p) :
    ∃ q : Pattern, p = .seq (.anchor .textStart) q ∧ q.plain = true ∧
      ∀ text, q.consume text some = texts.findSome? fun cs => behind (cs.map (letter ignoreCase)) text := by
  rw [anchored?_bars ignoreCase hne hsource, Option.ite_none_right_eq_some] at h
  have hnil : (anyText ignoreCase texts).toPattern.consume [] some = (none : Option (List Char)) := by
    rw [consume_anyText hne hascii, List.findSome?_eq_none_iff]
    intro cs hcs
    rcases cs with _ | ⟨c, cs⟩
    · exact absurd rfl (htexts _ hcs)
    · rfl
  obtain ⟨q, hq, hplain, hconsume⟩ := Shape.exists_tied (plain_anyText hascii) hnil
  refine ⟨q, (Option.some.inj h.2).symm.trans hq, hplain, fun text => ?_⟩
  rw [hconsume, consume_anyText hne hascii]
  simp

end Texts

end Pattern

end Criteria
