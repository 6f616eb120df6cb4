import Criteria.Proofs.Dialect.SubDialect
import Criteria.Proofs.Expression.Leaves

/-!
# Reading rendered trees

`sharp` splits the text of a tree into the tokens of a phrase whose tree it is, as long as it reads
every leaf at the text of the leaf (`Term.Reads`). Behind an operand a rendered tree goes on with a
closing bracket, a separator, or a space and an operator (`Resumes`), and so a leaf can be studied
with nothing of the tree but the character behind it.

If there is a leaf that is not read (`Term.Missed`), then the operands of the text are not the
leaves of the tree.
-/

namespace Criteria

open Text Scanner TokenPattern

/-! ### Operators, brackets and separators -/

/-- The tokens of a text for `sharp`, from a state of the grammar on. -/
def sharpTokens (offset : Nat) (text : List Char) (state : Nat) :
    Except SyntaxError (List (Token TokenKind)) :=
  tokensFrom expressionGrammar (sharp.map definition) offset text state

theorem sharpTokens_cons_blank {offset : Nat} {c : Char} (hc : isBlank c = true)
    (text : List Char) (state : Nat) :
    sharpTokens offset (c :: text) state = sharpTokens (offset + c.utf8Size) text state :=
  tokensFrom_cons_blank hc

/-- The first pattern of `sharp` that matches and may come next gives the first token. -/
theorem sharpTokens_piece {n : Nat} {t : TokenPattern TokenKind} (hn : sharp[n]? = some t)
    (offset : Nat) (c : Char) (run : List Char) {tail : List Char} {state target : Nat}
    (hbefore : ∀ u ∈ sharp.take n,
      expressionGrammar.next? state u.kind = none ∨ u.Misses (c :: run ++ tail))
    (hc : isBlank c = false) (ht : t.pattern.consume (c :: run ++ tail) some = some tail)
    (hf : t.Follows tail) (hnext : expressionGrammar.next? state t.kind = some target) :
    sharpTokens offset (c :: run ++ tail) state =
      (⟨t.kind, String.ofList (c :: run), offset⟩ :: ·) <$>
        sharpTokens (offset + byteLength (c :: run)) tail target := by
  obtain ⟨hlt, rfl⟩ := List.getElem?_eq_some_iff.1 hn
  have hsharp : sharp = sharp.take n ++ sharp[n] :: sharp.drop (n + 1) := by simp
  have hplain : ∀ u ∈ sharp.take n ++ sharp[n] :: sharp.drop (n + 1), u.plain = true := by
    rw [← hsharp]
    exact plain_sharp
  have hpiece : tokensFrom _ _ offset _ _ = _ :=
    tokensFrom_piece hplain hbefore hc ht hf hnext
  rw [← hsharp] at hpiece
  exact hpiece

/-- Whether none of the first patterns of `sharp` can give a token that starts with a character. -/
def Passes (n state : Nat) (c : Char) : Prop :=
  ∀ u ∈ sharp.take n, expressionGrammar.next? state u.kind = none ∨
    u.pattern.advances = true ∧ u.pattern.mayStart c = false

instance (n state : Nat) (c : Char) : Decidable (Passes n state c) := by
  unfold Passes
  infer_instance

theorem Passes.misses {n state : Nat} {c : Char} (h : Passes n state c) (text : List Char) :
    ∀ u ∈ sharp.take n, expressionGrammar.next? state u.kind = none ∨ u.Misses (c :: text) := by
  intro u hu
  refine (h u hu).imp_right ?_
  rintro ⟨hadv, hstart⟩
  exact misses_of_consume (Pattern.consume_eq_none_of_mayStart hadv hstart)

theorem sharpTokens_open (offset : Nat) (tail : List Char) :
    sharpTokens offset ('(' :: tail) 0 =
      (⟨.bracketOpen, "(", offset⟩ :: ·) <$> sharpTokens (offset + 1) tail 0 := by
  have hpasses : Passes 0 0 '(' := by decide
  exact sharpTokens_piece rfl offset '(' [] (hpasses.misses _) rfl rfl (by simp [Follows]) rfl

theorem sharpTokens_close (offset : Nat) (tail : List Char) :
    sharpTokens offset (')' :: tail) 1 =
      (⟨.bracketClose, ")", offset⟩ :: ·) <$> sharpTokens (offset + 1) tail 1 := by
  have hpasses : Passes 1 1 ')' := by decide
  exact sharpTokens_piece rfl offset ')' [] (hpasses.misses _) rfl rfl (by simp [Follows]) rfl

theorem sharpTokens_separator (offset : Nat) (tail : List Char) :
    sharpTokens offset (',' :: tail) 1 =
      (⟨.separator, ",", offset⟩ :: ·) <$> sharpTokens (offset + 1) tail 0 := by
  have hpasses : Passes 2 1 ',' := by decide
  exact sharpTokens_piece rfl offset ',' [] (hpasses.misses _) rfl rfl (by simp [Follows]) rfl

theorem sharpTokens_before (offset : Nat) (tail : List Char) :
    sharpTokens offset ('!' :: tail) 0 =
      (⟨.unaryOperator, "!", offset⟩ :: ·) <$> sharpTokens (offset + 1) tail 0 := by
  have hpasses : Passes 5 0 '!' := by decide
  exact sharpTokens_piece rfl offset '!' [] (hpasses.misses _) rfl rfl
    (by simp [negation, Follows]) rfl

/-- The name of an operator between operands is found where a space follows. -/
theorem sharpTokens_between {op : Operator} (h : op.placement = .between) (offset : Nat)
    (tail : List Char) :
    ∃ start offset', sharpTokens offset (' ' :: (op.name.toList ++ ' ' :: tail)) 1 =
      (⟨.binaryOperator, op.name, start⟩ :: ·) <$> sharpTokens offset' tail 0 := by
  have symbols {c : Char} {run : List Char} (hc : isBlank c = false) (hpasses : Passes 6 1 c)
      (ht : symbol.pattern.consume (c :: run ++ ' ' :: tail) some = some (' ' :: tail)) :
      ∃ start offset', sharpTokens offset (' ' :: (c :: run ++ ' ' :: tail)) 1 =
        (⟨.binaryOperator, String.ofList (c :: run), start⟩ :: ·) <$> sharpTokens offset' tail 0 := by
    rw [sharpTokens_cons_blank rfl, sharpTokens_piece (t := symbol) rfl _ c run
      (hpasses.misses _) hc ht (by simp [symbol, Follows]) rfl, sharpTokens_cons_blank rfl]
    exact ⟨_, _, rfl⟩
  have words {c : Char} {run : List Char} (hc : isBlank c = false) (hpasses : Passes 7 1 c)
      (ht : word.pattern.consume (c :: run ++ ' ' :: tail) some = some (' ' :: tail)) :
      ∃ start offset', sharpTokens offset (' ' :: (c :: run ++ ' ' :: tail)) 1 =
        (⟨.binaryOperator, String.ofList (c :: run), start⟩ :: ·) <$> sharpTokens offset' tail 0 := by
    have hf : word.Follows (' ' :: tail) := by
      rintro q ⟨⟩
      rfl
    rw [sharpTokens_cons_blank rfl, sharpTokens_piece (t := word) rfl _ c run
      (hpasses.misses _) hc ht hf rfl, sharpTokens_cons_blank rfl]
    exact ⟨_, _, rfl⟩
  cases op with
  | isIn | named => exact words rfl (by decide) rfl
  | count | countDistinct | not | concat | contains | startsWith | endsWith | conditional => cases h
  | _ => exact symbols rfl (by decide) rfl

/-- The name of a method is found where an opening bracket follows. -/
theorem sharpTokens_call {op : Operator} (h : op.placement = .call) (offset : Nat)
    (tail : List Char) :
    ∃ start offset', sharpTokens offset (op.name.toList ++ '(' :: tail) 0 =
      ([⟨.method, op.name, offset⟩, ⟨.bracketOpen, "(", start⟩] ++ ·) <$>
        sharpTokens offset' tail 0 := by
  have methods {c : Char} {run : List Char} (hc : isBlank c = false) (hpasses : Passes 4 0 c)
      (ht : method.pattern.consume (c :: run ++ '(' :: tail) some = some ('(' :: tail)) :
      ∃ start offset', sharpTokens offset (c :: run ++ '(' :: tail) 0 =
        ([⟨.method, String.ofList (c :: run), offset⟩, ⟨.bracketOpen, "(", start⟩] ++ ·) <$>
          sharpTokens offset' tail 0 := by
    have hf : method.Follows ('(' :: tail) := by
      rintro q ⟨⟩
      exact Pattern.isSome_consume rfl (.seq (.done _) (.one tail rfl)) rfl
    rw [sharpTokens_piece (t := method) rfl _ c run (hpasses.misses _) hc ht hf rfl,
      sharpTokens_open]
    refine ⟨offset + byteLength (c :: run), offset + byteLength (c :: run) + 1, ?_⟩
    cases sharpTokens (offset + byteLength (c :: run) + 1) tail 0 <;> rfl
  cases op with
  | count | countDistinct | concat | contains | startsWith | endsWith | conditional =>
    exact methods rfl (by decide) rfl
  | _ => cases h

/-! ### Leaves and trees -/

/-- How a rendered tree goes on behind an operand: it ends, or a bracket is closed, or another
argument follows, or an operator. -/
def Resumes : List Char → Prop
  | [] => True
  | ' ' :: c :: _ => isBlank c = false ∧ c ≠ '('
  | c :: _ => c = ')' ∨ c = ','

/-- Whether the text of a leaf is read as one operand that stands for the leaf. -/
def Term.Reads (v : Term) : Prop :=
  ∀ offset tail, Resumes tail → ∃ t offset', (t.kind = .operand ∨ t.kind = .null) ∧
    Postfix.resolve t = .ok v ∧ sharpTokens offset (v.render.toList ++ tail) 0 =
      (t :: ·) <$> sharpTokens offset' tail 1

theorem resumes_close (tail : List Char) : Resumes (')' :: tail) := .inl rfl

theorem resumes_separator (tail : List Char) : Resumes (',' :: tail) := .inr rfl

theorem resumes_between {op : Operator} (h : op.placement = .between) (tail : List Char) :
    Resumes (' ' :: (op.name.toList ++ tail)) := by
  cases op with
  | count | countDistinct | not | concat | contains | startsWith | endsWith | conditional => cases h
  | _ => exact ⟨rfl, by decide⟩

/-- What follows the first of several terms with separators between them. -/
def furtherText (ts : List Term) : List Char := ts.flatMap fun t => ',' :: t.render.toList

theorem toList_join_renderList (t : Term) (ts : List Term) :
    (join "," (Term.renderList (t :: ts))).toList = t.render.toList ++ furtherText ts := by
  induction ts generalizing t with
  | nil => simp [Term.renderList, join, furtherText]
  | cons u ts ih =>
    have hjoin : join "," (Term.renderList (t :: u :: ts)) =
        t.render ++ "," ++ join "," (Term.renderList (u :: ts)) := rfl
    rw [hjoin, String.toList_append, String.toList_append, ih]
    simp [furtherText]

theorem resumes_furtherText (ts : List Term) (tail : List Char) :
    Resumes (furtherText ts ++ ')' :: tail) := by
  rcases ts with _ | ⟨t, ts⟩
  · exact resumes_close tail
  · exact resumes_separator _

/-- An operator between two operands is written in brackets. -/
theorem render_between {op : Operator} (h : op.placement = .between) (l r : Term)
    (tail : List Char) :
    (Term.apply op [l, r]).render.toList ++ tail =
      '(' :: (l.render.toList ++
        ' ' :: (op.name.toList ++ ' ' :: (r.render.toList ++ ')' :: tail))) := by
  simp [Term.render, Term.renderList, Term.renderApplied, h]

theorem render_before {op : Operator} (h : op.placement = .before) (t : Term) (tail : List Char) :
    (Term.apply op [t]).render.toList ++ tail = '!' :: (t.render.toList ++ tail) := by
  cases op with
  | not => simp [Term.render, Term.renderList, Term.renderApplied, Operator.placement, Operator.name]
  | _ => cases h

theorem render_call {op : Operator} (h : op.placement = .call) (t : Term) (ts : List Term)
    (tail : List Char) :
    (Term.apply op (t :: ts)).render.toList ++ tail =
      op.name.toList ++ '(' :: (t.render.toList ++ (furtherText ts ++ ')' :: tail)) := by
  have hrender : (Term.apply op (t :: ts)).render =
      op.name ++ "(" ++ join "," (Term.renderList (t :: ts)) ++ ")" := by
    simp [Term.render, Term.renderApplied, h]
  rw [hrender]
  simp [toList_join_renderList]

/-- In `sharp` the name of an operator spells the operator. -/
theorem spells_name {op : Operator} {kind : TokenKind} (hk : op.placement.tokenKind = kind)
    (offset : Nat) : Token.Spells Dialect.sharp ⟨kind, op.name, offset⟩ kind op := by
  have table : ∀ op ∈ Operator.catalogue,
      Dialect.sharp.operator? op.name op.placement.tokenKind = some op := by decide
  exact ⟨rfl, hk ▸ table op op.mem_catalogue⟩

namespace Term

/-- Whether the text of a tree is read as a phrase whose tree it is and that needs no brackets. -/
def Readable (t : Term) : Prop :=
  ∀ offset tail, Resumes tail → ∃ (e : Phrase) (offset' : Nat), e.WellFormed Dialect.sharp ∧
    e.Grouped ∧ e.between? = none ∧ e.term = t ∧
    sharpTokens offset (t.render.toList ++ tail) 0 = (e.tokens ++ ·) <$> sharpTokens offset' tail 1

theorem Reads.readable {v : Term} (h : v.Reads) : v.Readable := by
  intro offset tail htail
  obtain ⟨t, offset', hk, hr, htokens⟩ := h offset tail htail
  exact ⟨.value t v, offset', ⟨hk, hr⟩, trivial, rfl, rfl, htokens⟩

theorem readable_between {op : Operator} (hop : op.placement = .between) {l r : Term}
    (hl : l.Readable) (hr : r.Readable) : (apply op [l, r]).Readable := by
  intro offset tail htail
  obtain ⟨el, o₁, hwl, hgl, hbl, rfl, hl⟩ :=
    hl (offset + 1) _ (resumes_between hop (' ' :: (r.render.toList ++ ')' :: tail)))
  obtain ⟨start, o₂, hop'⟩ := sharpTokens_between hop o₁ (r.render.toList ++ ')' :: tail)
  obtain ⟨er, o₃, hwr, hgr, hbr, rfl, hr⟩ := hr o₂ _ (resumes_close tail)
  have hspells : Token.Spells Dialect.sharp ⟨.binaryOperator, op.name, start⟩ .binaryOperator op :=
    spells_name (by rw [hop]; rfl) start
  refine ⟨.bracketed ⟨.bracketOpen, "(", offset⟩
    (.between el ⟨.binaryOperator, op.name, start⟩ op er) ⟨.bracketClose, ")", o₃⟩, o₃ + 1,
    ⟨rfl, ⟨hwl, hspells, hwr⟩, rfl⟩, ?_, rfl, rfl, ?_⟩
  · exact ⟨hgl, by simp [hbl], hgr, by simp [hbr]⟩
  · rw [render_between hop, sharpTokens_open, hl, hop', hr, sharpTokens_close]
    cases sharpTokens (o₃ + 1) tail 1 <;> simp [Phrase.tokens]

theorem readable_before {op : Operator} (hop : op.placement = .before) {t : Term}
    (ht : t.Readable) : (apply op [t]).Readable := by
  intro offset tail htail
  obtain ⟨e, offset', hw, hg, hb, rfl, ht⟩ := ht (offset + 1) tail htail
  have hname : op.name = "!" := by
    cases op with
    | not => rfl
    | _ => cases hop
  have hspells : Token.Spells Dialect.sharp ⟨.unaryOperator, op.name, offset⟩ .unaryOperator op :=
    spells_name (by rw [hop]; rfl) offset
  refine ⟨.before ⟨.unaryOperator, op.name, offset⟩ op e, offset', ⟨hspells, hw⟩, ⟨hg, hb⟩, rfl,
    rfl, ?_⟩
  rw [render_before hop, sharpTokens_before, ht, hname]
  cases sharpTokens offset' tail 1 <;> simp [Phrase.tokens]

/-- Further arguments are read behind the earlier ones. -/
theorem exists_arguments {ts : List Term} (h : ∀ t ∈ ts, t.Readable) {earlier : Arguments}
    (hw : earlier.WellFormed Dialect.sharp) (hg : earlier.Grouped) (offset : Nat)
    (tail : List Char) :
    ∃ (as : Arguments) (us : List (Token TokenKind)) (offset' : Nat),
      as.WellFormed Dialect.sharp ∧ as.Grouped ∧ as.terms = earlier.terms ++ ts ∧
      as.tokens = earlier.tokens ++ us ∧ sharpTokens offset (furtherText ts ++ ')' :: tail) 1 =
        (us ++ ·) <$> sharpTokens offset' (')' :: tail) 1 := by
  induction ts generalizing earlier offset with
  | nil =>
    refine ⟨earlier, [], offset, hw, hg, by simp, by simp, ?_⟩
    cases hs : sharpTokens offset (')' :: tail) 1 <;> simp [furtherText, hs]
  | cons t ts ih =>
    obtain ⟨ht, hts⟩ := List.forall_mem_cons.1 h
    obtain ⟨e, o₁, hwe, hge, -, rfl, he⟩ := ht (offset + 1) _ (resumes_furtherText ts tail)
    have hw' : (Arguments.more earlier ⟨.separator, ",", offset⟩ e).WellFormed Dialect.sharp :=
      ⟨hw, rfl, hwe⟩
    obtain ⟨as, us, o₂, hwas, hgas, hterms, htokens, hus⟩ := ih hts hw' ⟨hg, hge⟩ o₁
    refine ⟨as, ⟨.separator, ",", offset⟩ :: (e.tokens ++ us), o₂, hwas, hgas, ?_, ?_, ?_⟩
    · simp [hterms, Arguments.terms]
    · simp [htokens, Arguments.tokens]
    · have htext : furtherText (e.term :: ts) ++ ')' :: tail =
          ',' :: (e.term.render.toList ++ (furtherText ts ++ ')' :: tail)) := by simp [furtherText]
      rw [htext, sharpTokens_separator, he, hus]
      cases sharpTokens o₂ (')' :: tail) 1 <;> simp

theorem readable_call {op : Operator} (hop : op.placement = .call) {t : Term} {ts : List Term}
    (hlen : (t :: ts).length = op.arity) (ht : t.Readable) (hts : ∀ u ∈ ts, u.Readable) :
    (apply op (t :: ts)).Readable := by
  intro offset tail htail
  obtain ⟨start, o₁, hcall⟩ := sharpTokens_call hop offset
    (t.render.toList ++ (furtherText ts ++ ')' :: tail))
  obtain ⟨e, o₂, hwe, hge, -, rfl, he⟩ := ht o₁ _ (resumes_furtherText ts tail)
  have hw : (Arguments.one e).WellFormed Dialect.sharp := hwe
  obtain ⟨as, us, o₃, hwas, hgas, hterms, htokens, hus⟩ := exists_arguments hts hw hge o₂ tail
  have hspells : Token.Spells Dialect.sharp ⟨.method, op.name, offset⟩ .method op :=
    spells_name (by rw [hop]; rfl) offset
  have hcount : as.count = op.arity := by
    rw [← as.length_terms, hterms, ← hlen]
    simp [Arguments.terms]
  refine ⟨.call ⟨.method, op.name, offset⟩ op ⟨.bracketOpen, "(", start⟩ as
    ⟨.bracketClose, ")", o₃⟩, o₃ + 1, ⟨hspells, rfl, hwas, hcount, rfl⟩, hgas, rfl, ?_, ?_⟩
  · rw [Phrase.term, hterms]
    rfl
  · rw [render_call hop, hcall, he, hus, sharpTokens_close]
    cases sharpTokens (o₃ + 1) tail 1 <;> simp [Phrase.tokens, htokens, Arguments.tokens]

/-- **A tree whose leaves are read is read.** -/
theorem readable_of_reads {t : Term} (hc : t.Complete) (h : ∀ v ∈ t.leaves, v.Reads) :
    t.Readable := by
  induction t using Term.induction with
  | leaf v hv => exact (h v (by simp [hv])).readable
  | apply op operands ih =>
    obtain ⟨hlen, hc⟩ := hc
    have hall : ∀ t ∈ operands, t.Readable := by
      intro t ht
      refine ih t ht (completeList_iff.1 hc t ht) fun v hv => h v ?_
      rw [leaves_apply, leavesList_eq]
      exact List.mem_flatMap.2 ⟨t, ht, hv⟩
    cases hop : op.placement with
    | between =>
      rw [Operator.arity_of_between hop] at hlen
      obtain ⟨l, r, rfl⟩ := List.length_eq_two.1 hlen
      exact readable_between hop (hall l (by simp)) (hall r (by simp))
    | before =>
      rw [Operator.arity_of_before hop] at hlen
      obtain ⟨t, rfl⟩ := List.length_eq_one_iff.1 hlen
      exact readable_before hop (hall t (by simp))
    | call =>
      rcases operands with _ | ⟨t, ts⟩
      · cases op <;> cases hlen
      · obtain ⟨ht, hts⟩ := List.forall_mem_cons.1 hall
        exact readable_call hop hlen ht hts

/-! ### Leaves that are not read -/

/-- Whether tokens, if there are any, do not start with operands that stand for given terms. -/
def Differs (tokens : Except SyntaxError (List (Token TokenKind))) (leaves : List Term) : Prop :=
  ∀ ts, tokens = .ok ts → ∀ rest,
    (Postfix.operands ts).map Postfix.resolve ≠ leaves.map Except.ok ++ rest

/-- Whether a tree is not found in its text. -/
def Missed (t : Term) : Prop :=
  ∀ offset tail, Resumes tail → Differs (sharpTokens offset (t.render.toList ++ tail) 0) t.leaves

namespace Differs

variable {tokens : Except SyntaxError (List (Token TokenKind))} {leaves : List Term}

theorem append (h : Differs tokens leaves) (more : List Term) : Differs tokens (leaves ++ more) := by
  intro ts hts rest
  rw [List.map_append, List.append_assoc]
  exact h ts hts _

theorem cons (h : Differs tokens leaves) {t : Token TokenKind} (h₁ : t.kind ≠ .operand)
    (h₂ : t.kind ≠ .null) : Differs ((t :: ·) <$> tokens) leaves := by
  intro ts hts rest
  obtain ⟨us, hus, rfl⟩ := map_eq_ok_iff.1 hts
  rw [operands_cons_of_ne h₁ h₂]
  exact h us hus rest

theorem behind (h : Differs tokens leaves) {e : Phrase} (he : e.WellFormed Dialect.sharp) :
    Differs ((e.tokens ++ ·) <$> tokens) (e.term.leaves ++ leaves) := by
  intro ts hts rest
  obtain ⟨us, hus, rfl⟩ := map_eq_ok_iff.1 hts
  rw [operands_append, List.map_append, List.map_append, e.resolve_operands he, List.append_assoc]
  intro heq
  exact h us hus rest (List.append_cancel_left heq)

end Differs

/-- Of several arguments the first tree that is not read is not found. -/
theorem differs_furtherText {ts : List Term} (hread : ∀ t ∈ ts, t.Readable ∨ t.Missed)
    (h : ∃ t ∈ ts, t.Missed) (offset : Nat) (tail : List Char) :
    Differs (sharpTokens offset (furtherText ts ++ ')' :: tail) 1) (leavesList ts) := by
  induction ts generalizing offset with
  | nil =>
    obtain ⟨t, ht, -⟩ := h
    cases ht
  | cons t ts ih =>
    obtain ⟨ht, hts⟩ := List.forall_mem_cons.1 hread
    have htext : furtherText (t :: ts) ++ ')' :: tail =
        ',' :: (t.render.toList ++ (furtherText ts ++ ')' :: tail)) := by simp [furtherText]
    rw [htext, sharpTokens_separator, leavesList_cons]
    by_cases hmissed : t.Missed
    · have hdiffers := hmissed (offset + 1) _ (resumes_furtherText ts tail)
      exact (hdiffers.append _).cons (by simp) (by simp)
    · obtain ⟨e, o₁, hw, -, -, rfl, he⟩ :=
        (ht.resolve_right hmissed) (offset + 1) _ (resumes_furtherText ts tail)
      have hlater : ∃ u ∈ ts, u.Missed := by
        obtain ⟨u, hu, hmu⟩ := h
        rcases List.mem_cons.1 hu with rfl | hu
        · exact absurd hmu hmissed
        · exact ⟨u, hu, hmu⟩
      rw [he]
      exact ((ih hts hlater o₁).behind hw).cons (by simp) (by simp)

theorem missed_between {op : Operator} (hop : op.placement = .between) {l r : Term}
    (h : l.Missed ∨ l.Readable ∧ r.Missed) : (apply op [l, r]).Missed := by
  intro offset tail htail
  rw [render_between hop, sharpTokens_open, leaves_apply, leavesList_cons]
  refine Differs.cons ?_ (by simp) (by simp)
  have hresumes := resumes_between hop (' ' :: (r.render.toList ++ ')' :: tail))
  rcases h with hl | ⟨hl, hr⟩
  · exact (hl (offset + 1) _ hresumes).append _
  · obtain ⟨e, o₁, hw, -, -, rfl, hl⟩ := hl (offset + 1) _ hresumes
    obtain ⟨start, o₂, hop'⟩ := sharpTokens_between hop o₁ (r.render.toList ++ ')' :: tail)
    have hdiffers := hr o₂ _ (resumes_close tail)
    rw [hl, hop', leavesList_cons, leavesList_nil, List.append_nil]
    exact (hdiffers.cons (by simp) (by simp)).behind hw

theorem missed_before {op : Operator} (hop : op.placement = .before) {t : Term} (h : t.Missed) :
    (apply op [t]).Missed := by
  intro offset tail htail
  rw [render_before hop, sharpTokens_before, leaves_apply, leavesList_cons]
  exact ((h (offset + 1) tail htail).append _).cons (by simp) (by simp)

theorem missed_call {op : Operator} (hop : op.placement = .call) {t : Term} {ts : List Term}
    (hread : ∀ u ∈ ts, u.Readable ∨ u.Missed)
    (h : t.Missed ∨ t.Readable ∧ ∃ u ∈ ts, u.Missed) : (apply op (t :: ts)).Missed := by
  intro offset tail htail
  obtain ⟨start, o₁, hcall⟩ := sharpTokens_call hop offset
    (t.render.toList ++ (furtherText ts ++ ')' :: tail))
  have hcall' : sharpTokens offset ((apply op (t :: ts)).render.toList ++ tail) 0 =
      (⟨.method, op.name, offset⟩ :: ·) <$> (⟨.bracketOpen, "(", start⟩ :: ·) <$>
        sharpTokens o₁ (t.render.toList ++ (furtherText ts ++ ')' :: tail)) 0 := by
    rw [render_call hop, hcall]
    cases sharpTokens o₁ (t.render.toList ++ (furtherText ts ++ ')' :: tail)) 0 <;> rfl
  rw [hcall', leaves_apply, leavesList_cons]
  refine Differs.cons (Differs.cons ?_ (by simp) (by simp)) (by simp) (by simp)
  rcases h with ht | ⟨ht, h⟩
  · exact (ht o₁ _ (resumes_furtherText ts tail)).append _
  · obtain ⟨e, o₂, hw, -, -, rfl, he⟩ := ht o₁ _ (resumes_furtherText ts tail)
    rw [he]
    exact (differs_furtherText hread h o₂ tail).behind hw

/-- **A tree with a leaf that is not read is not found in its text.** -/
theorem missed_of_missed {t : Term} (hc : t.Complete) (hread : ∀ v ∈ t.leaves, v.Reads ∨ v.Missed)
    (h : ∃ v ∈ t.leaves, v.Missed) : t.Missed := by
  induction t using Term.induction with
  | leaf v hv =>
    obtain ⟨w, hw, hm⟩ := h
    rw [hv] at hw
    rwa [List.mem_singleton.1 hw] at hm
  | apply op operands ih =>
    obtain ⟨hlen, hc⟩ := hc
    have hleaves {t v : Term} (ht : t ∈ operands) (hv : v ∈ t.leaves) :
        v ∈ (apply op operands).leaves := by
      rw [leaves_apply, leavesList_eq]
      exact List.mem_flatMap.2 ⟨t, ht, hv⟩
    have hmissed {t : Term} (ht : t ∈ operands) (hm : ∃ v ∈ t.leaves, v.Missed) : t.Missed :=
      ih t ht (completeList_iff.1 hc t ht) (fun v hv => hread v (hleaves ht hv)) hm
    have hall : ∀ t ∈ operands, t.Readable ∨ t.Missed := by
      intro t ht
      by_cases hm : ∃ v ∈ t.leaves, v.Missed
      · exact .inr (hmissed ht hm)
      · refine .inl (readable_of_reads (completeList_iff.1 hc t ht) fun v hv => ?_)
        exact (hread v (hleaves ht hv)).resolve_right fun hv' => hm ⟨v, hv, hv'⟩
    obtain ⟨t, ht, hm⟩ : ∃ t ∈ operands, t.Missed := by
      obtain ⟨v, hv, hm⟩ := h
      rw [leaves_apply, leavesList_eq] at hv
      obtain ⟨t, ht, hv⟩ := List.mem_flatMap.1 hv
      exact ⟨t, ht, hmissed ht ⟨v, hv, hm⟩⟩
    cases hop : op.placement with
    | between =>
      rw [Operator.arity_of_between hop] at hlen
      obtain ⟨l, r, rfl⟩ := List.length_eq_two.1 hlen
      refine missed_between hop ?_
      rcases List.mem_pair.1 ht with rfl | rfl
      · exact .inl hm
      · exact (hall l (by simp)).symm.imp_right fun hl => ⟨hl, hm⟩
    | before =>
      rw [Operator.arity_of_before hop] at hlen
      obtain ⟨u, rfl⟩ := List.length_eq_one_iff.1 hlen
      exact missed_before hop (List.mem_singleton.1 ht ▸ hm)
    | call =>
      rcases operands with _ | ⟨u, us⟩
      · cases ht
      obtain ⟨hu, hus⟩ := List.forall_mem_cons.1 hall
      refine missed_call hop hus ?_
      rcases List.mem_cons.1 ht with rfl | ht
      · exact .inl hm
      · exact hu.symm.imp_right fun hu => ⟨hu, t, ht, hm⟩

end Term

/-! ### Parsing rendered trees -/

theorem arityMatched_sharp : Dialect.sharp.ArityMatched := by
  unfold Dialect.ArityMatched
  decide

/-- **`sharp` parses the text of a tree to the tree if it reads the leaves.** -/
theorem parse_render_of_reads {o : Operation} (hc : o.toTerm.Complete)
    (h : ∀ v ∈ o.toTerm.leaves, v.Reads) : Dialect.sharp.parse o.render = .ok o := by
  obtain ⟨e, offset, hw, hg, -, hterm, htokens⟩ := Term.readable_of_reads hc h 0 [] trivial
  have htokenize : Dialect.sharp.tokenize o.render = .ok e.tokens := by
    change sharpTokens 0 o.toTerm.render.toList 0 = _
    rw [List.append_nil] at htokens
    have hend : sharpTokens offset [] 1 = .ok [] := tokensFrom_blank rfl
    rw [htokens, hend]
    simp
  have hread := (read?_eq_some_iff arityMatched_sharp).2 ⟨hw, hg, rfl⟩
  refine bind_eq_ok_iff.2 ⟨e.tokens, htokenize, bind_eq_ok_iff.2 ⟨e.postorder, ?_, ?_⟩⟩
  · exact Postfix.reorder_of_read? arityMatched_sharp hread
  · exact (Phrase.fold_postorder_eq_ok_iff arityMatched_sharp hw).2 hterm

/-- `sharp` does not parse the text of a tree to the tree if it does not read some leaf. -/
theorem parse_render_of_missed {o : Operation} (hc : o.toTerm.Complete)
    (hread : ∀ v ∈ o.toTerm.leaves, v.Reads ∨ v.Missed) (h : ∃ v ∈ o.toTerm.leaves, v.Missed) :
    Dialect.sharp.parse o.render ≠ .ok o := by
  intro hparse
  obtain ⟨-, ts, hts, hleaves⟩ := leaves_of_parse arityMatched_sharp hparse
  have htokens : sharpTokens 0 (o.toTerm.render.toList ++ []) 0 = .ok ts := by
    rw [List.append_nil]
    exact hts
  refine Term.missed_of_missed hc hread h 0 [] trivial ts htokens [] ?_
  rw [hleaves, List.append_nil]

end Criteria
