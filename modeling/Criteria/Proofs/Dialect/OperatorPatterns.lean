import Criteria.Proofs.Dialect.OperandTexts
import Criteria.Proofs.Fallible
import Criteria.Proofs.Pattern.Weights
import Criteria.Proofs.Text.Pieces
import Mathlib.Data.List.Flatten
import Mathlib.Order.Bounds.Basic

/-!
# Generated patterns

The patterns of operators are generated from their spellings: one tries the symbols and one the words,
each the longest first, and a word must not be followed by a word character. What they find at the start
of a text is the longest spelling that stands there (`isLongest_beginsGuarded`):

* a text that begins with a symbol does not begin with a longer word, since some character of the symbol
  is no word character (`BeginsWith.length_le_of_word`), and so the symbols may be tried first;
* where a word character follows the longest word, one follows every other word that the text begins
  with (`TokenPattern.Tries.isLongest_words`), and so none of them has to be tried again.

All of this is about ASCII text. A spelling is a word if all of its characters are word characters; one
that only ends in a word character is tried with the symbols.
-/

namespace Criteria

open Text

/-! ### Letters -/

/-- A character up to the case of ASCII letters where case is ignored. -/
def Text.foldLetter (ignoreCase : Bool) (c : Char) : Char := if ignoreCase then asciiLower c else c

theorem Text.isWord_foldLetter (ignoreCase : Bool) {c : Char} (hc : c.toNat < 128) :
    isWord (foldLetter ignoreCase c) = isWord c := by
  have table : ∀ n < 128, isWord (asciiLower (Char.ofNat n)) = isWord (Char.ofNat n) := by decide
  cases ignoreCase with
  | false => rfl
  | true => exact forall_ascii (p := fun c => isWord (asciiLower c) = isWord c) table hc

/-- The ASCII variants of an ASCII character are those with the same small letter. -/
theorem Text.mem_caseVariants_iff {c d : Char} (hc : c.toNat < 128) (hd : d.toNat < 128) :
    d ∈ caseVariants c ↔ asciiLower c = asciiLower d := by
  have hlower : ∀ n < 128, ∀ v ∈ asciiVariants (Char.ofNat n), v.toNat < 128 →
      asciiLower (Char.ofNat n) = asciiLower v := by decide
  have hself : ∀ n < 128, Char.ofNat n ∈ asciiVariants (asciiLower (Char.ofNat n)) := by decide
  have hsubset : ∀ n < 128, ∀ v ∈ asciiVariants (asciiLower (Char.ofNat n)),
      v ∈ asciiVariants (Char.ofNat n) := by decide
  rw [caseVariants_ascii hc]
  constructor
  · intro h
    exact forall_ascii (p := fun c => ∀ v ∈ asciiVariants c, v.toNat < 128 → asciiLower c = asciiLower v)
      hlower hc d h hd
  · intro h
    refine forall_ascii (p := fun c => ∀ v ∈ asciiVariants (asciiLower c), v ∈ asciiVariants c)
      hsubset hc d ?_
    rw [h]
    exact forall_ascii (p := fun d => d ∈ asciiVariants (asciiLower d)) hself hd

theorem Pattern.contains_letter_iff (ignoreCase : Bool) {c d : Char} (hc : c.toNat < 128)
    (hd : d.toNat < 128) :
    (letter ignoreCase c).contains d = true ↔ foldLetter ignoreCase c = foldLetter ignoreCase d := by
  cases ignoreCase with
  | false => exact CharSet.contains_only_iff.trans eq_comm
  | true =>
    refine Iff.trans ?_ (mem_caseVariants_iff hc hd)
    unfold letter
    split_ifs with hvariants
    · exact CharSet.contains_folded_only hc
    · have hsingle : caseVariants c = [c] := by simpa using hvariants
      rw [hsingle, CharSet.contains_only_iff, List.mem_singleton]

/-- Whether a text begins with a spelling, up to the case of ASCII letters where case is ignored. -/
def BeginsWith (ignoreCase : Bool) (s : String) (text : List Char) : Prop :=
  s.toList.map (foldLetter ignoreCase) <+: text.map (foldLetter ignoreCase)

instance (ignoreCase : Bool) (s : String) (text : List Char) : Decidable (BeginsWith ignoreCase s text) :=
  inferInstanceAs (Decidable (_ <+: _))

theorem BeginsWith.length_le {ignoreCase : Bool} {s : String} {text : List Char}
    (h : BeginsWith ignoreCase s text) : s.length ≤ text.length := by
  have hle := List.IsPrefix.length_le h
  rwa [List.length_map, List.length_map, String.length_toList] at hle

theorem Text.length_pos {s : String} (hs : s ≠ "") : 0 < s.length := by
  rw [Nat.pos_iff_ne_zero, ← String.length_toList]
  simpa using hs

/-- Whether all characters of a text are ASCII characters. -/
def Ascii (text : List Char) : Prop := ∀ c ∈ text, c.toNat < 128

instance (text : List Char) : Decidable (Ascii text) := inferInstanceAs (Decidable (∀ c ∈ text, _))

theorem Pattern.behind_map_letter (ignoreCase : Bool) {cs text : List Char} (hcs : Ascii cs)
    (htext : Ascii text) :
    behind (cs.map (letter ignoreCase)) text =
      if cs.map (foldLetter ignoreCase) <+: text.map (foldLetter ignoreCase) then
        some (text.drop cs.length)
      else none := by
  induction cs generalizing text with
  | nil => simp [behind]
  | cons c cs ih =>
    obtain ⟨hc, hcs⟩ := List.forall_mem_cons.1 hcs
    rcases text with _ | ⟨d, text⟩
    · simp [behind]
    · obtain ⟨hd, htext⟩ := List.forall_mem_cons.1 htext
      simp only [List.map_cons, behind, contains_letter_iff ignoreCase hc hd, List.cons_prefix_cons,
        ih hcs htext, List.length_cons, List.drop_succ_cons]
      split_ifs <;> simp_all

/-- What a spelling leaves of a text. -/
theorem Pattern.behind_spelling (ignoreCase : Bool) {s : String} {text : List Char}
    (hs : Ascii s.toList) (htext : Ascii text) :
    behind (s.toList.map (letter ignoreCase)) text =
      if BeginsWith ignoreCase s text then some (text.drop s.length) else none := by
  rw [behind_map_letter ignoreCase hs htext, String.length_toList]
  rfl

/-! ### Word characters -/

/-- Whether a word character stands at a place of a text. -/
def WordAt (text : List Char) (n : Nat) : Prop := ∃ c ∈ text[n]?, isWord c = true

instance (text : List Char) (n : Nat) : Decidable (WordAt text n) :=
  decidable_of_iff (text[n]?.any isWord = true) (Option.any_eq_true ..)

theorem isWordSpelling_iff {s : String} (hs : Ascii s.toList) :
    isWordSpelling s = true ↔ ∀ c ∈ s.toList, isWord c = true := by
  have table : ∀ n < 128, (isAlphanumeric (Char.ofNat n) || Char.ofNat n == '_') = isWord (Char.ofNat n) := by
    decide
  rw [isWordSpelling, allChars, List.all_eq_true]
  refine forall₂_congr fun c hc => ?_
  rw [forall_ascii (p := fun c => (isAlphanumeric c || c == '_') = isWord c) table (hs c hc)]

namespace BeginsWith

variable {ignoreCase : Bool} {s w : String} {text : List Char}

/-- A text has word characters in the places where the spelling has them. -/
theorem wordAt_iff (h : BeginsWith ignoreCase s text) (hs : Ascii s.toList) (htext : Ascii text)
    {n : Nat} {c : Char} (hc : s.toList[n]? = some c) : WordAt text n ↔ isWord c = true := by
  obtain ⟨rest, hrest⟩ := h
  have hplace := congrArg (·[n]?) hrest
  obtain ⟨hn, hget⟩ := List.getElem?_eq_some_iff.1 hc
  rw [List.getElem?_append_left (by simpa using hn), List.getElem?_map, List.getElem?_map, hc] at hplace
  obtain ⟨d, hd, hfold⟩ := Option.map_eq_some_iff.1 hplace.symm
  have hword : isWord d = isWord c := by
    rw [← isWord_foldLetter ignoreCase (htext d (List.mem_of_getElem? hd)), hfold,
      isWord_foldLetter ignoreCase (hs c (List.mem_of_getElem? hc))]
  simp [WordAt, hd, hword]

theorem wordAt_of_lt (h : BeginsWith ignoreCase w text) (hw : Ascii w.toList) (htext : Ascii text)
    (hword : ∀ c ∈ w.toList, isWord c = true) {n : Nat} (hn : n < w.length) : WordAt text n := by
  rw [← String.length_toList] at hn
  exact (h.wordAt_iff hw htext (List.getElem?_eq_getElem hn)).2 (hword _ (List.getElem_mem hn))

/-- **No word is longer than a symbol that the same text begins with.** -/
theorem length_le_of_word (h : BeginsWith ignoreCase s text) (hs : Ascii s.toList)
    (hsymbol : isWordSpelling s = false) (h' : BeginsWith ignoreCase w text) (hw : Ascii w.toList)
    (hword : isWordSpelling w = true) (htext : Ascii text) : w.length ≤ s.length := by
  by_contra hlt
  refine Bool.eq_false_iff.1 hsymbol ((isWordSpelling_iff hs).2 fun c hc => ?_)
  obtain ⟨n, hn, rfl⟩ := List.getElem_of_mem hc
  refine (h.wordAt_iff hs htext (List.getElem?_eq_getElem hn)).1 ?_
  refine h'.wordAt_of_lt hw htext ((isWordSpelling_iff hw).1 hword) ?_
  rw [String.length_toList] at hn
  omega

end BeginsWith

/-! ### The longest first -/

/-- Whether a size is that of the longest of the given spellings with a property; without a size there
is none with it. -/
def IsLongest (texts : List String) (p : String → Prop) : Option Nat → Prop
  | some n => IsGreatest {n | ∃ s ∈ texts, p s ∧ s.length = n} n
  | none => ∀ s ∈ texts, ¬ p s

namespace IsLongest

variable {texts symbols words : List String} {p q r : String → Prop} {m n : Option Nat}

theorem congr (hn : IsLongest words q n) (h : ∀ s, s ∈ texts ∧ p s ↔ s ∈ words ∧ q s) :
    IsLongest texts p n := by
  cases n with
  | none => exact fun s hs hp => hn s ((h s).1 ⟨hs, hp⟩).1 ((h s).1 ⟨hs, hp⟩).2
  | some n =>
    have hset : {n | ∃ s ∈ texts, p s ∧ s.length = n} = {n | ∃ s ∈ words, q s ∧ s.length = n} := by
      ext k
      exact exists_congr fun s => by rw [← and_assoc, h, and_assoc]
    rw [IsLongest, hset]
    exact hn

/-- The longest of two kinds of spellings is found among the first kind, if there is one and those of
the second are no longer. -/
theorem or (hm : IsLongest symbols p m) (hn : IsLongest words q n)
    (hle : ∀ s ∈ symbols, p s → ∀ w ∈ words, q w → w.length ≤ s.length)
    (h : ∀ s, s ∈ texts ∧ r s ↔ s ∈ symbols ∧ p s ∨ s ∈ words ∧ q s) : IsLongest texts r (m.or n) := by
  cases m with
  | none =>
    refine hn.congr fun s => (h s).trans (or_iff_right ?_)
    exact fun hs => hm s hs.1 hs.2
  | some k =>
    obtain ⟨⟨s, hs, hp, rfl⟩, hgreatest⟩ := hm
    obtain ⟨htexts, hr⟩ := (h s).2 (.inl ⟨hs, hp⟩)
    refine ⟨⟨s, htexts, hr, rfl⟩, ?_⟩
    rintro _ ⟨s', hs', hr', rfl⟩
    rcases (h s').1 ⟨hs', hr'⟩ with ⟨hs', hp'⟩ | ⟨hs', hq'⟩
    · exact hgreatest ⟨s', hs', hp', rfl⟩
    · exact hle s hs hp s' hs' hq'

end IsLongest

/-- The longest spelling that a text begins with is tried first. -/
theorem isLongest_findSome? (ignoreCase : Bool) {texts : List String} {text : List Char}
    (hascii : ∀ s ∈ texts, Ascii s.toList) (htext : Ascii text)
    (hsorted : texts.Pairwise fun a b => b.length ≤ a.length) :
    ∃ n, IsLongest texts (BeginsWith ignoreCase · text) n ∧
      (texts.findSome? fun s => Pattern.behind (s.toList.map (Pattern.letter ignoreCase)) text) =
        n.map (text.drop ·) := by
  induction texts with
  | nil => exact ⟨none, nofun, rfl⟩
  | cons s texts ih =>
    obtain ⟨hs, hascii⟩ := List.forall_mem_cons.1 hascii
    obtain ⟨hlength, hsorted⟩ := List.pairwise_cons.1 hsorted
    obtain ⟨n, hn, hfind⟩ := ih hascii hsorted
    rw [List.findSome?_cons, Pattern.behind_spelling ignoreCase hs htext]
    split_ifs with hbegins
    · refine ⟨some s.length, ⟨⟨s, List.mem_cons_self, hbegins, rfl⟩, ?_⟩, rfl⟩
      rintro _ ⟨s', hs', -, rfl⟩
      rcases List.mem_cons.1 hs' with rfl | hs'
      · exact Nat.le_refl _
      · exact hlength s' hs'
    · refine ⟨n, hn.congr fun s' => ?_, hfind⟩
      rw [List.mem_cons]
      refine and_congr_left fun hs' => or_iff_right ?_
      rintro rfl
      exact hbegins hs'

/-! ### Alternations -/

theorem byteLength_eq_length {cs : List Char} (h : Ascii cs) : byteLength cs = cs.length := by
  have table : ∀ n < 128, (Char.ofNat n).utf8Size = 1 := by decide
  induction cs with
  | nil => rfl
  | cons c cs ih =>
    obtain ⟨hc, hcs⟩ := List.forall_mem_cons.1 h
    rw [byteLength_cons, forall_ascii (p := fun c => c.utf8Size = 1) table hc, ih hcs, List.length_cons,
      Nat.add_comm]

/-- What the text of an alternation is made of. -/
theorem exists_bars_alternation {texts : List String} (hascii : ∀ s ∈ texts, Ascii s.toList) :
    ∃ sorted : List String, sorted.Perm texts ∧ (sorted.Pairwise fun a b => b.length ≤ a.length) ∧
      (alternation texts).toList = Pattern.bars (sorted.map String.toList) := by
  let shorter (a b : String) : Bool := byteLength b.toList ≤ byteLength a.toList
  have hperm : (texts.mergeSort shorter).Perm texts := List.mergeSort_perm texts shorter
  refine ⟨texts.mergeSort shorter, hperm, ?_, ?_⟩
  · have hsorted : (texts.mergeSort shorter).Pairwise fun a b => shorter a b = true := by
      refine List.pairwise_mergeSort ?_ ?_ texts
      · intro a b c hab hbc
        simp only [shorter, decide_eq_true_eq] at hab hbc ⊢
        exact Nat.le_trans hbc hab
      · intro a b
        simpa [shorter] using Nat.le_total _ _
    refine hsorted.imp_of_mem fun ha hb h => ?_
    have h' : byteLength _ ≤ byteLength _ := of_decide_eq_true h
    rwa [byteLength_eq_length (hascii _ (hperm.mem_iff.1 ha)),
      byteLength_eq_length (hascii _ (hperm.mem_iff.1 hb)), String.length_toList, String.length_toList] at h'
  · rw [alternation, toList_join, Pattern.bars, List.map_map, List.map_map]
    simp [Function.comp_def, shorter]

/-- A token pattern that tries spellings, the longest first. -/
structure TokenPattern.Tries (t : TokenPattern TokenKind) (ignoreCase : Bool) (texts : List String) :
    Prop where
  plain : t.plain = true
  consume : ∀ text, Ascii text → ∃ n, IsLongest texts (BeginsWith ignoreCase · text) n ∧
    t.pattern.consume text some = n.map (text.drop ·)

theorem exists_tries {kind : TokenKind} {ignoreCase : Bool} {texts : List String} (hne : texts ≠ [])
    (hascii : ∀ s ∈ texts, Ascii s.toList) (htexts : ∀ s ∈ texts, s ≠ "") {follow : Option String}
    (hfollow : ∀ source ∈ follow, source = wordEnd) {d : Definition TokenKind}
    (h : Definition.ofText? kind ignoreCase (alternation texts) follow = .ok d) :
    ∃ t : TokenPattern TokenKind, d = t.definition ∧ t.follow = follow.map (fun _ => .endOfWord) ∧
      t.Tries ignoreCase texts := by
  obtain ⟨sorted, hperm, hsorted, hsource⟩ := exists_bars_alternation hascii
  have hmem {s : String} : s ∈ sorted ↔ s ∈ texts := hperm.mem_iff
  have hnonempty : sorted ≠ [] := by
    rintro rfl
    exact hne (List.nil_perm.1 hperm)
  unfold Definition.ofText? at h
  split at h
  · cases h
  next p hp =>
  obtain ⟨q, rfl, hplain, hconsume⟩ := Pattern.exists_of_anchored?_bars (by simpa using hnonempty)
    (List.forall_mem_map.2 fun s hs => hascii s (hmem.1 hs))
    (List.forall_mem_map.2 fun s hs => by simpa using htexts s (hmem.1 hs)) hsource hp
  have htries (follow : Option Pattern) (hf : follow.all Pattern.plain = true) :
      TokenPattern.Tries ⟨kind, q, follow⟩ ignoreCase texts := by
    refine ⟨Bool.and_eq_true_iff.2 ⟨hplain, hf⟩, fun text htext => ?_⟩
    obtain ⟨n, hn, hfind⟩ := isLongest_findSome? ignoreCase (fun s hs => hascii s (hmem.1 hs)) htext
      hsorted
    refine ⟨n, hn.congr fun s => by rw [hmem], ?_⟩
    rw [hconsume, List.findSome?_map]
    exact hfind
  cases follow with
  | none =>
    cases h
    exact ⟨⟨kind, q, none⟩, rfl, rfl, htries none rfl⟩
  | some source =>
    obtain rfl := hfollow source rfl
    simp only [anchored?_wordEnd] at h
    cases h
    exact ⟨⟨kind, q, some .endOfWord⟩, rfl, rfl, htries _ rfl⟩

/-! ### Candidates -/

namespace TokenPattern.Tries

variable {t : TokenPattern TokenKind} {ignoreCase : Bool} {texts : List String} {text : List Char}

theorem candidate?_eq_some (h : t.Tries ignoreCase texts) {n : Nat} (hpos : 0 < n)
    (hle : n ≤ text.length) (hconsume : t.pattern.consume text some = some (text.drop n))
    (hfollows : t.Follows (text.drop n)) :
    t.definition.candidate? text = some ⟨t.kind, n, hpos⟩ :=
  (candidate?_eq_some_iff h.plain).2 ⟨text.take n, text.drop n, (List.take_append_drop n text).symm,
    hconsume, hfollows, rfl, (List.length_take_of_le hle).symm⟩

/-- Symbols may be followed by anything. -/
theorem isLongest_symbols (h : t.Tries ignoreCase texts) (hfollow : t.follow = none)
    (htexts : ∀ s ∈ texts, s ≠ "") (htext : Ascii text) :
    IsLongest texts (BeginsWith ignoreCase · text) ((t.definition.candidate? text).map (·.size)) := by
  obtain ⟨n, hn, hconsume⟩ := h.consume text htext
  cases n with
  | none => rwa [candidate?_eq_none h.plain (misses_of_consume hconsume)]
  | some n =>
    obtain ⟨s, hs, hbegins, rfl⟩ := hn.1
    have hfollows : t.Follows (text.drop s.length) := by simp [Follows, hfollow]
    rwa [h.candidate?_eq_some (length_pos (htexts s hs)) hbegins.length_le hconsume hfollows]

/-- Words must not be followed by a word character. If the longest one is, then so is every other. -/
theorem isLongest_words (h : t.Tries ignoreCase texts) (hfollow : t.follow = some .endOfWord)
    (htexts : ∀ s ∈ texts, s ≠ "") (hascii : ∀ s ∈ texts, Ascii s.toList)
    (hwords : ∀ s ∈ texts, isWordSpelling s = true) (htext : Ascii text) :
    IsLongest texts (fun s => BeginsWith ignoreCase s text ∧ ¬ WordAt text s.length)
      ((t.definition.candidate? text).map (·.size)) := by
  have hfollows (n : Nat) : t.Follows (text.drop n) ↔ ¬ WordAt text n := by
    rw [follows_endOfWord_iff hfollow, List.head?_drop]
    simp [WordAt]
  obtain ⟨n, hn, hconsume⟩ := h.consume text htext
  cases n with
  | none =>
    rw [candidate?_eq_none h.plain (misses_of_consume hconsume)]
    exact fun s hs hp => hn s hs hp.1
  | some n =>
    obtain ⟨⟨s, hs, hbegins, rfl⟩, hgreatest⟩ := hn
    by_cases hnext : WordAt text s.length
    · have hmisses : t.Misses text := by
        intro tail htail
        rw [hconsume] at htail
        cases htail
        rw [hfollows]
        exact not_not_intro hnext
      rw [candidate?_eq_none h.plain hmisses]
      rintro s' hs' ⟨hbegins', hnext'⟩
      rcases Nat.lt_or_eq_of_le (hgreatest ⟨s', hs', hbegins', rfl⟩) with hlt | heq
      · exact hnext' (hbegins.wordAt_of_lt (hascii s hs) htext
          ((isWordSpelling_iff (hascii s hs)).1 (hwords s hs)) hlt)
      · exact hnext' (heq ▸ hnext)
    · rw [h.candidate?_eq_some (length_pos (htexts s hs)) hbegins.length_le hconsume ((hfollows _).2 hnext)]
      refine ⟨⟨s, hs, ⟨hbegins, hnext⟩, rfl⟩, ?_⟩
      rintro _ ⟨s', hs', ⟨hbegins', -⟩, rfl⟩
      exact hgreatest ⟨s', hs', hbegins', rfl⟩

end TokenPattern.Tries

/-! ### The generated patterns of a category -/

/-- The spellings of a category. -/
def spellingsOf (spellings : List Spelling) (kind : TokenKind) : List String :=
  (spellings.filter (·.kind = kind)).map (·.text)

/-- The size of what the first definition that matches finds at the start of a text. -/
def firstSize? (definitions : List (Definition TokenKind)) (text : List Char) : Option Nat :=
  (definitions.findSome? (·.candidate? text)).map (·.size)

theorem firstSize?_append (a b : List (Definition TokenKind)) (text : List Char) :
    firstSize? (a ++ b) text = (firstSize? a text).or (firstSize? b text) := by
  rw [firstSize?, List.findSome?_append, Option.map_or]
  rfl

/-- The definitions that rules are read as. -/
def readRules (ignoreCase : Bool) (rules : List TokenRule) :
    Except SyntaxError (List (Definition TokenKind)) :=
  rules.mapM fun r => Definition.ofText? r.kind ignoreCase r.source r.follow

theorem readRules_append_eq_ok {ignoreCase : Bool} {a b : List TokenRule}
    {definitions : List (Definition TokenKind)} :
    readRules ignoreCase (a ++ b) = .ok definitions ↔ ∃ front back, readRules ignoreCase a = .ok front ∧
      readRules ignoreCase b = .ok back ∧ definitions = front ++ back := by
  rw [readRules, List.mapM_append, bind_eq_ok_iff]
  constructor
  · rintro ⟨front, hfront, h⟩
    obtain ⟨back, hback, h⟩ := bind_eq_ok_iff.1 h
    exact ⟨front, back, hfront, hback, (Except.ok.inj h).symm⟩
  · rintro ⟨front, back, hfront, hback, rfl⟩
    exact ⟨front, hfront, bind_eq_ok_iff.2 ⟨back, hback, rfl⟩⟩

/-- The rule generated from spellings, if there are any. -/
def rulesOf (kind : TokenKind) (texts : List String) (follow : Option String) : List TokenRule :=
  if texts.isEmpty then [] else [⟨kind, alternation texts, follow⟩]

/-- Symbols come before words, and only words are guarded. -/
theorem operatorRules_eq (spellings : List Spelling) {kind : TokenKind} (hkind : kind ≠ .method) :
    operatorRules spellings kind =
      rulesOf kind ((spellingsOf spellings kind).filter fun s => !isWordSpelling s) none ++
        rulesOf kind ((spellingsOf spellings kind).filter isWordSpelling) (some wordEnd) := by
  simp only [operatorRules, List.partition_eq_filter_filter, if_neg hkind]
  rfl

section Generated

variable {kind : TokenKind} {ignoreCase : Bool} {texts : List String}
  {definitions : List (Definition TokenKind)} {text : List Char}

theorem exists_tries_of_rulesOf (htexts : ∀ s ∈ texts, s ≠ "" ∧ Ascii s.toList) {follow : Option String}
    (hfollow : ∀ source ∈ follow, source = wordEnd)
    (h : readRules ignoreCase (rulesOf kind texts follow) = .ok definitions) :
    texts = [] ∧ definitions = [] ∨ ∃ t : TokenPattern TokenKind, definitions = [t.definition] ∧
      t.follow = follow.map (fun _ => .endOfWord) ∧ t.Tries ignoreCase texts := by
  unfold rulesOf at h
  split_ifs at h with hempty
  · cases h
    exact .inl ⟨List.isEmpty_iff.1 hempty, rfl⟩
  · obtain ⟨d, _, hd, hnil, rfl⟩ := List.forall₂_cons_left_iff.1 (mapM_eq_ok_iff.1 h)
    cases hnil
    obtain ⟨t, rfl, ht⟩ := exists_tries (mt List.isEmpty_iff.2 hempty) (fun s hs => (htexts s hs).2)
      (fun s hs => (htexts s hs).1) hfollow hd
    exact .inr ⟨t, rfl, ht⟩

theorem firstSize?_singleton (d : Definition TokenKind) :
    firstSize? [d] text = (d.candidate? text).map (·.size) := by
  rw [firstSize?, List.findSome?_singleton]

/-- What the rule of symbols finds. -/
theorem isLongest_symbolRules (htexts : ∀ s ∈ texts, s ≠ "" ∧ Ascii s.toList)
    (hread : readRules ignoreCase (rulesOf kind texts none) = .ok definitions) (htext : Ascii text) :
    IsLongest texts (BeginsWith ignoreCase · text) (firstSize? definitions text) := by
  rcases exists_tries_of_rulesOf htexts (by simp) hread with ⟨rfl, rfl⟩ | ⟨t, rfl, hfollow, ht⟩
  · nofun
  · rw [firstSize?_singleton]
    exact ht.isLongest_symbols hfollow (fun s hs => (htexts s hs).1) htext

/-- What the rule of words finds. -/
theorem isLongest_wordRules (htexts : ∀ s ∈ texts, s ≠ "" ∧ Ascii s.toList)
    (hwords : ∀ s ∈ texts, isWordSpelling s = true)
    (hread : readRules ignoreCase (rulesOf kind texts (some wordEnd)) = .ok definitions)
    (htext : Ascii text) :
    IsLongest texts (fun s => BeginsWith ignoreCase s text ∧ ¬ WordAt text s.length)
      (firstSize? definitions text) := by
  rcases exists_tries_of_rulesOf htexts (fun _ h => (Option.some.inj h).symm) hread with
    ⟨rfl, rfl⟩ | ⟨t, rfl, hfollow, ht⟩
  · nofun
  · rw [firstSize?_singleton]
    exact ht.isLongest_words hfollow (fun s hs => (htexts s hs).1) (fun s hs => (htexts s hs).2) hwords
      htext

/-- The rule of spellings is a pattern unless they are very long. -/
theorem exists_readRules_rulesOf (kind : TokenKind) (ignoreCase : Bool)
    (htexts : ∀ s ∈ texts, s ≠ "" ∧ Ascii s.toList) {follow : Option String}
    (hfollow : ∀ source ∈ follow, source = wordEnd)
    (hlength : (texts.map String.toList).flatten.length ≤ 10000) :
    ∃ definitions, readRules ignoreCase (rulesOf kind texts follow) = .ok definitions := by
  unfold rulesOf
  split_ifs with hempty
  · exact ⟨[], rfl⟩
  obtain ⟨sorted, hperm, -, hsource⟩ := exists_bars_alternation fun s hs => (htexts s hs).2
  have hmem {s : String} : s ∈ sorted ↔ s ∈ texts := hperm.mem_iff
  have hnonempty : sorted ≠ [] := by
    rintro rfl
    exact hempty (List.isEmpty_iff.2 (List.nil_perm.1 hperm))
  obtain ⟨p, hp⟩ := Pattern.exists_anchored?_bars ignoreCase (by simpa using hnonempty)
    (List.forall_mem_map.2 fun s hs => (htexts s (hmem.1 hs)).2)
    (List.forall_mem_map.2 fun s hs => by simpa using (htexts s (hmem.1 hs)).1)
    (by rwa [(hperm.map _).flatten.length_eq]) hsource
  have hread : ∃ d, Definition.ofText? kind ignoreCase (alternation texts) follow = .ok d := by
    cases follow with
    | none => exact ⟨⟨kind, p, none⟩, by simp only [Definition.ofText?, hp]⟩
    | some source =>
      obtain rfl := hfollow source rfl
      exact ⟨⟨kind, p, some Pattern.endOfWord.atStart⟩, by
        simp only [Definition.ofText?, hp, anchored?_wordEnd]⟩
  obtain ⟨d, hd⟩ := hread
  exact ⟨[d], by simp [readRules, hd]⟩

/-- Whether a text begins with a spelling that is, if it is a word, not followed by a word character. -/
def BeginsGuarded (ignoreCase : Bool) (s : String) (text : List Char) : Prop :=
  BeginsWith ignoreCase s text ∧ (isWordSpelling s = true → ¬ WordAt text s.length)

/-- **The generated patterns find the longest spelling that stands at the start of a text**, where a
spelling that is a word must not be followed by a word character. -/
theorem isLongest_beginsGuarded {spellings : List Spelling} (hkind : kind ≠ .method)
    (hspellings : ∀ s ∈ spellingsOf spellings kind, s ≠ "" ∧ Ascii s.toList)
    (hread : readRules ignoreCase (operatorRules spellings kind) = .ok definitions)
    (htext : Ascii text) :
    IsLongest (spellingsOf spellings kind) (BeginsGuarded ignoreCase · text)
      (firstSize? definitions text) := by
  rw [operatorRules_eq spellings hkind] at hread
  obtain ⟨symbols, words, hsymbols, hwords, rfl⟩ := readRules_append_eq_ok.1 hread
  generalize spellingsOf spellings kind = texts at hspellings hsymbols hwords
  have hlongest := isLongest_symbolRules (fun s hs => hspellings s (List.mem_filter.1 hs).1) hsymbols htext
  have hword := isLongest_wordRules (fun s hs => hspellings s (List.mem_filter.1 hs).1)
    (fun s hs => (List.mem_filter.1 hs).2) hwords htext
  rw [firstSize?_append]
  refine hlongest.or hword ?_ fun s => ?_
  · intro s hs hbegins w hw hbegins'
    obtain ⟨hs, hsymbol⟩ := List.mem_filter.1 hs
    obtain ⟨hw, hword⟩ := List.mem_filter.1 hw
    exact hbegins.length_le_of_word (hspellings s hs).2 (by simpa using hsymbol) hbegins'.1
      (hspellings w hw).2 hword htext
  · rw [List.mem_filter, List.mem_filter, BeginsGuarded]
    cases isWordSpelling s <;> simp

/-- Whether a spelling ends in a word character. -/
def EndsInWord (s : String) : Prop := ∃ c ∈ s.toList.getLast?, isWord c = true

instance (s : String) : Decidable (EndsInWord s) :=
  decidable_of_iff (s.toList.getLast?.any isWord = true) (Option.any_eq_true ..)

/-- Whether a text begins with a spelling that is, if it ends in a word character, not followed by
another one. -/
def BeginsWhole (ignoreCase : Bool) (s : String) (text : List Char) : Prop :=
  BeginsWith ignoreCase s text ∧ (EndsInWord s → ¬ WordAt text s.length)

instance (ignoreCase : Bool) (s : String) (text : List Char) :
    Decidable (BeginsWhole ignoreCase s text) :=
  inferInstanceAs (Decidable (_ ∧ _))

theorem endsInWord_of_word {s : String} (hne : s ≠ "") (hs : Ascii s.toList)
    (hword : isWordSpelling s = true) : EndsInWord s := by
  have hlist : s.toList ≠ [] := by simpa using hne
  exact ⟨s.toList.getLast hlist, List.getLast?_eq_some_getLast hlist,
    (isWordSpelling_iff hs).1 hword _ (List.getLast_mem hlist)⟩

/-- **The generated patterns find the longest spelling and never cut a word.** They can be read unless
the spellings are very long, and they guard the spellings that are words. If no other spelling ends in a
word character, what they find is the longest spelling that is not followed by a word character where it
ends in one. -/
theorem isLongest_operatorRules {spellings : List Spelling} (hkind : kind ≠ .method)
    (hspellings : ∀ s ∈ spellingsOf spellings kind, s ≠ "" ∧ Ascii s.toList) (ignoreCase : Bool) :
    (((spellingsOf spellings kind).map String.toList).flatten.length ≤ 10000 →
      ∃ definitions, readRules ignoreCase (operatorRules spellings kind) = .ok definitions) ∧
    ∀ definitions, readRules ignoreCase (operatorRules spellings kind) = .ok definitions →
      ∀ text, Ascii text →
        IsLongest (spellingsOf spellings kind) (BeginsGuarded ignoreCase · text)
          (firstSize? definitions text) ∧
        ((∀ s ∈ spellingsOf spellings kind, EndsInWord s → isWordSpelling s = true) →
          IsLongest (spellingsOf spellings kind) (BeginsWhole ignoreCase · text)
            (firstSize? definitions text)) := by
  refine ⟨fun hlength => ?_, fun definitions hread text htext => ?_⟩
  · have hpart (p : String → Bool) (follow : Option String)
        (hfollow : ∀ source ∈ follow, source = wordEnd) : ∃ definitions, readRules ignoreCase
          (rulesOf kind ((spellingsOf spellings kind).filter p) follow) = .ok definitions :=
      exists_readRules_rulesOf kind ignoreCase (fun s hs => hspellings s (List.mem_filter.1 hs).1) hfollow
        (Nat.le_trans (List.filter_sublist.map _).flatten.length_le hlength)
    obtain ⟨symbols, hsymbols⟩ := hpart (fun s => !isWordSpelling s) none (by simp)
    obtain ⟨words, hwords⟩ := hpart isWordSpelling (some wordEnd) fun _ h => (Option.some.inj h).symm
    rw [operatorRules_eq spellings hkind]
    exact ⟨symbols ++ words, readRules_append_eq_ok.2 ⟨symbols, words, hsymbols, hwords, rfl⟩⟩
  · have hguarded := isLongest_beginsGuarded hkind hspellings hread htext
    refine ⟨hguarded, fun hends => hguarded.congr fun s => and_congr_right fun hs => ?_⟩
    obtain ⟨hne, hascii⟩ := hspellings s hs
    have hword : EndsInWord s ↔ isWordSpelling s = true :=
      ⟨hends s hs, endsInWord_of_word hne hascii⟩
    rw [BeginsWhole, BeginsGuarded, hword]

end Generated

theorem readRules_sharp :
    readRules true (operatorRules DialectDraft.sharp.spellings .binaryOperator) =
      .ok [TokenPattern.symbol.definition, TokenPattern.word.definition] := by
  have hrules : operatorRules DialectDraft.sharp.spellings .binaryOperator =
      [⟨.binaryOperator, "==|!=|>=|<=|\\&\\&|\\|\\||>|<|\\+|\\-|\\*|/|%", none⟩,
        ⟨.binaryOperator, "in|as", some wordEnd⟩] := by
    rw [← alternation_symbols, ← alternation_words]
    rfl
  have hword : Definition.ofText? TokenKind.binaryOperator true "in|as" (some wordEnd) =
      .ok TokenPattern.word.definition := ofText?_guarded_eq (by decide) anchored?_wordEnd
  simp only [readRules, hrules, List.mapM_cons, List.mapM_nil, ofText?_symbols, hword]
  rfl

theorem isLongest_operatorRules_sharp :
    (∃ definitions, readRules true (operatorRules DialectDraft.sharp.spellings .binaryOperator) =
      .ok definitions) ∧
    IsLongest (spellingsOf DialectDraft.sharp.spellings .binaryOperator) (BeginsWhole true · ">= 1".toList)
      (some 2) := by
  have hkind : TokenKind.binaryOperator ≠ .method := by decide
  have hspellings : ∀ s ∈ spellingsOf DialectDraft.sharp.spellings .binaryOperator,
      s ≠ "" ∧ Ascii s.toList := by decide
  have hsize : firstSize? [TokenPattern.symbol.definition, TokenPattern.word.definition] ">= 1".toList =
      some 2 := by decide
  obtain ⟨hexists, hlongest⟩ := isLongest_operatorRules hkind hspellings true
  refine ⟨hexists (by decide), ?_⟩
  rw [← hsize]
  exact (hlongest _ readRules_sharp _ (by decide)).2 (by decide)

/-- A spelling of two words is no word, and so the second one is not guarded: it is found in front of a
longer word. -/
theorem not_isLongest_operatorRules_blank : ∃ definitions,
    readRules true (operatorRules [⟨"is not", .binaryOperator, .notEquals⟩] .binaryOperator) =
      .ok definitions ∧
    firstSize? definitions "is nothing".toList = some 6 ∧
    ¬ IsLongest (spellingsOf [⟨"is not", .binaryOperator, .notEquals⟩] .binaryOperator)
      (BeginsWhole true · "is nothing".toList) (some 6) := by
  have halternation : alternation ["is not"] = "is not" := by simp +decide [alternation]
  have hrules : operatorRules [⟨"is not", .binaryOperator, .notEquals⟩] .binaryOperator =
      [⟨.binaryOperator, alternation ["is not"], none⟩] := rfl
  have hread : Definition.ofText? TokenKind.binaryOperator true "is not" none =
      .ok (TokenPattern.definition ⟨.binaryOperator, Pattern.spelled "is not", none⟩) :=
    ofText?_eq (by decide)
  have hsize : firstSize? [TokenPattern.definition ⟨.binaryOperator, Pattern.spelled "is not", none⟩]
      "is nothing".toList = some 6 := by decide +kernel
  refine ⟨_, ?_, hsize, ?_⟩
  · simp only [readRules, hrules, halternation, List.mapM_cons, List.mapM_nil, hread]
    rfl
  · rintro ⟨⟨s, hs, hwhole, -⟩, -⟩
    obtain rfl : s = "is not" := List.mem_singleton.1 hs
    exact absurd hwhole (by decide)

/-- The generated patterns stand in every dialect that asks for them. -/
theorem exists_readRules_of_build {draft : DialectDraft} {d : Dialect} (hbuild : draft.build = .ok d)
    (hparts : .operators ∈ draft.parts) {kind : TokenKind}
    (hkind : kind ∈ [TokenKind.method, .unaryOperator, .binaryOperator]) :
    ∃ before definitions after, d.lexer.scanner.definitions = before ++ definitions ++ after ∧
      readRules (!d.caseSensitive) (operatorRules d.spellings kind) = .ok definitions := by
  obtain ⟨all, hall, hd⟩ := bind_eq_ok_iff.1 hbuild
  cases hd
  have hrules : ∃ front back, draft.rules = front ++ (operatorRules draft.spellings kind ++ back) := by
    obtain ⟨parts, parts', hsplit⟩ := List.append_of_mem hparts
    obtain ⟨kinds, kinds', hsplit'⟩ := List.append_of_mem hkind
    refine ⟨parts.flatMap (DialectDraft.expand draft.spellings) ++
      kinds.flatMap (operatorRules draft.spellings), kinds'.flatMap (operatorRules draft.spellings) ++
      parts'.flatMap (DialectDraft.expand draft.spellings), ?_⟩
    rw [DialectDraft.rules, hsplit, List.flatMap_append, List.flatMap_cons, DialectDraft.expand, hsplit',
      List.flatMap_append, List.flatMap_cons]
    simp only [List.append_assoc]
  obtain ⟨front, back, hrules⟩ := hrules
  obtain ⟨before, rest, -, hrest, rfl⟩ := readRules_append_eq_ok.1 (hrules ▸ hall)
  obtain ⟨definitions, after, hdefinitions, -, rfl⟩ := readRules_append_eq_ok.1 hrest
  exact ⟨before, definitions, after, (List.append_assoc ..).symm, hdefinitions⟩

end Criteria
