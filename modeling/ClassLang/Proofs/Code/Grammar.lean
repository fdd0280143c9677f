/-
# The grammar of instruction texts

A text is read just when its tokens are those of a written instruction, up to the other
spellings that are allowed, and what is read is then that instruction. Shapes are tried one
after the other and their patterns overlap, but whatever shape recognises an operation that
is legal, the tokens are a spelling of it; so the order decides nothing.
-/

import ClassLang.Proofs.Code.Spelling

namespace ClassLang.Code

/-! ## What is read is a spelling -/

theorem Lexeme.token_of_isWord {lexeme : Lexeme} {word : String}
    (hword : lexeme.isWord word = true) : lexeme.token = wordOf word := by
  rw [Lexeme.isWord, Bool.and_eq_true, beq_iff_eq, beq_iff_eq] at hword
  exact Lexeme.token_eq_wordOf.mpr hword

theorem Lexeme.ne_temp_of_isSymbol {lexeme : Lexeme} {symbol : Symbol}
    (hsymbol : lexeme.isSymbol symbol = true) : lexeme.token.kind ≠ .temp := by
  intro hkind
  rw [show lexeme.token.kind = .symbol symbol from beq_iff_eq.mp hsymbol] at hkind
  cases hkind

theorem Lexeme.ne_temp_of_isWord {lexeme : Lexeme} {word : String}
    (hword : lexeme.isWord word = true) : lexeme.token.kind ≠ .temp := by
  rw [Lexeme.token_of_isWord hword]
  exact fun hkind => TokenKind.noConfusion hkind

/-- Tokens as they come from a text: symbols have their characters, and any other token is
what its characters are, unless a temporary follows it. -/
structure Cut (tokens : List Token) : Prop where
  symbols : ∀ token ∈ tokens, ∀ symbol, token.kind = .symbol symbol → token = symbol.token
  alone : tokens.IsChain fun token next =>
    Token.at? token.chars = some token ∨ next.kind = .temp

namespace Cut

variable {lexeme : Lexeme} {token next : Token} {tokens more : List Token}

theorem tail (hcut : Cut (token :: tokens)) : Cut tokens where
  symbols := fun other hother => hcut.symbols other (List.mem_cons_of_mem _ hother)
  alone := hcut.alone.tail

theorem left (hcut : Cut (tokens ++ more)) : Cut tokens where
  symbols := fun other hother => hcut.symbols other (List.mem_append_left _ hother)
  alone := hcut.alone.left_of_append

theorem symbol_eq (hcut : Cut (lexeme.token :: tokens)) {symbol : Symbol}
    (hsymbol : lexeme.isSymbol symbol = true) : lexeme.token = symbol.token :=
  hcut.symbols _ List.mem_cons_self symbol (beq_iff_eq.mp hsymbol)

theorem operand_eq (hcut : Cut (lexeme.token :: next :: tokens)) (hnext : next.kind ≠ .temp) :
    lexeme.token = operandToken lexeme.text := by
  have halone := (List.isChain_cons_cons.mp hcut.alone).1.resolve_right hnext
  have hform : operandForm lexeme.text = lexeme.kind := by
    rw [operandForm, show Token.at? lexeme.text.toList = some lexeme.token from halone]
    rfl
  rw [operandToken, hform, Lexeme.token]

theorem operand_symbol {sign : Lexeme} {symbol : Symbol}
    (hcut : Cut (lexeme.token :: sign.token :: tokens)) (hsign : sign.isSymbol symbol = true) :
    lexeme.token = operandToken lexeme.text ∧ sign.token = symbol.token :=
  ⟨hcut.operand_eq (Lexeme.ne_temp_of_isSymbol hsign), hcut.tail.symbol_eq hsign⟩

/-- The last operand stands before the semicolon. -/
theorem operand_last (hcut : Cut [lexeme.token, Symbol.semicolon.token]) :
    lexeme.token = operandToken lexeme.text :=
  hcut.operand_eq fun hkind => TokenKind.noConfusion hkind

end Cut

theorem Lexeme.isSymbol_of_comparison {lexeme : Lexeme} {op : Comparison}
    (hop : lexeme.comparison = .ok op) : lexeme.isSymbol op.symbol = true := by
  unfold Lexeme.comparison at hop
  split at hop
  next symbol hkind =>
    rw [Lexeme.isSymbol, hkind, beq_iff_eq]
    cases symbol <;> cases hop <;> rfl
  next => cases hop

theorem Lexeme.isSymbol_of_arithmetic {lexeme : Lexeme} {op : Arithmetic}
    (hop : lexeme.arithmetic = .ok op) : lexeme.isSymbol op.symbol = true := by
  unfold Lexeme.arithmetic at hop
  split at hop
  next symbol hkind =>
    rw [Lexeme.isSymbol, hkind, beq_iff_eq]
    cases symbol <;> cases hop <;> rfl
  next => cases hop

theorem Lexeme.unpadded_of_block {lexeme : Lexeme} {id : BlockId} (hkind : lexeme.kind = .name)
    (hblock : lexeme.block = .ok id) : lexeme.token.unpadded = id.token := by
  apply Token.unpadded_eq_block_iff.mpr
  refine ⟨hkind, ?_⟩
  rw [Lexeme.token, String.ofList_toList]
  unfold Lexeme.block at hblock
  split at hblock
  next found hfound => rw [hfound, Except.ok.inj hblock]
  next => cases hblock

section Readers

variable {lexemes : List Lexeme} {operation : Operation}

/-- The code before a semicolon, token by token. -/
def CutCode (lexemes : List Lexeme) : Prop :=
  Cut (lexemes.map Lexeme.token ++ [Symbol.semicolon.token])

theorem spells_of_readBranch? (hcut : CutCode lexemes)
    (hread : readBranch? lexemes = some (.ok operation)) :
    Spells operation (lexemes.map Lexeme.token) := by
  unfold readBranch? at hread
  split at hread
  next word left sign right goWord onTrue elseWord onFalse =>
    obtain ⟨hshape, hread⟩ := Option.ite_none_right_eq_some.mp hread
    simp only [Bool.and_eq_true, beq_iff_eq] at hshape
    obtain ⟨⟨⟨⟨hif, hgoto⟩, htrue⟩, helse⟩, hfalse⟩ := hshape
    obtain ⟨op, hop, hread⟩ := exists_ok_of_bind (Option.some.inj hread)
    obtain ⟨first, hfirst, hread⟩ := exists_ok_of_bind hread
    obtain ⟨second, hsecond, hread⟩ := exists_ok_of_bind hread
    cases hread
    obtain ⟨hleft, hsign⟩ := hcut.tail.operand_symbol (Lexeme.isSymbol_of_comparison hop)
    have hright := hcut.tail.tail.tail.operand_eq (Lexeme.ne_temp_of_isWord hgoto)
    simp only [List.map_cons, List.map_nil]
    rw [Lexeme.token_of_isWord hif, hleft, hsign, hright, Lexeme.token_of_isWord hgoto,
      Lexeme.token_of_isWord helse]
    exact .padded (Lexeme.unpadded_of_block htrue hfirst) (Lexeme.unpadded_of_block hfalse hsecond)
  next => cases hread

theorem spells_of_readReturn? (hcut : CutCode lexemes)
    (hread : readReturn? lexemes = some (.ok operation)) :
    Spells operation (lexemes.map Lexeme.token) := by
  unfold readReturn? at hread
  split at hread
  next word =>
    obtain ⟨hword, hread⟩ := Option.ite_none_right_eq_some.mp hread
    cases hread
    rw [List.map_cons, Lexeme.token_of_isWord hword]
    exact .written (.ret none)
  next word value =>
    obtain ⟨hword, hread⟩ := Option.ite_none_right_eq_some.mp hread
    cases hread
    rw [List.map_cons, List.map_cons, Lexeme.token_of_isWord hword,
      hcut.tail.operand_last]
    exact .written (.ret (some value.text))
  next => cases hread

theorem spells_of_readParam? (hcut : CutCode lexemes)
    (hread : readParam? lexemes = some (.ok operation)) :
    Spells operation (lexemes.map Lexeme.token) := by
  unfold readParam? at hread
  split at hread
  next word mark value =>
    obtain ⟨hshape, hread⟩ := Option.ite_none_right_eq_some.mp hread
    obtain ⟨hword, hmark⟩ := Bool.and_eq_true_iff.mp hshape
    cases hread
    simp only [List.map_cons, List.map_nil]
    rw [Lexeme.token_of_isWord hword, hcut.tail.symbol_eq hmark,
      hcut.tail.tail.operand_last]
    exact .written (.param .reference value.text)
  next word value =>
    have hvalue := hcut.tail.operand_last
    simp only [List.map_cons, List.map_nil]
    split at hread
    next hword =>
      cases hread
      rw [Lexeme.token_of_isWord hword, hvalue]
      exact .written (.param .standard value.text)
    next =>
      obtain ⟨hword, hread⟩ := Option.ite_none_right_eq_some.mp hread
      cases hread
      rw [Lexeme.token_of_isWord hword, hvalue]
      exact .written (.param .error value.text)
  next => cases hread

theorem tokens_of_readTarget? (hcut : CutCode lexemes) {target : CallTarget}
    (hread : readTarget? lexemes = some target) : lexemes.map Lexeme.token = target.tokens := by
  unfold readTarget? at hread
  split at hread
  next word mark callee =>
    obtain ⟨hshape, hread⟩ := Option.ite_none_right_eq_some.mp hread
    obtain ⟨hword, hmark⟩ := Bool.and_eq_true_iff.mp hshape
    cases hread
    simp only [List.map_cons, List.map_nil]
    rw [Lexeme.token_of_isWord hword, hcut.tail.symbol_eq hmark,
      hcut.tail.tail.operand_last]
    rfl
  next word callee =>
    obtain ⟨hword, hread⟩ := Option.ite_none_right_eq_some.mp hread
    cases hread
    simp only [List.map_cons, List.map_nil]
    rw [Lexeme.token_of_isWord hword, hcut.tail.operand_last]
    rfl
  next => cases hread

theorem spells_of_readCall? (hcut : CutCode lexemes)
    (hread : readCall? lexemes = some (.ok operation)) :
    Spells operation (lexemes.map Lexeme.token) := by
  obtain ⟨target, htarget, hread⟩ := Option.map_eq_some_iff.mp hread
  cases hread
  rw [tokens_of_readTarget? hcut htarget]
  exact .written (.call target none)

theorem spells_of_readKeptCall? (hcut : CutCode lexemes)
    (hread : readKeptCall? lexemes = some (.ok operation)) :
    Spells operation (lexemes.map Lexeme.token) := by
  unfold readKeptCall? at hread
  split at hread
  next dest assign rest =>
    obtain ⟨hassign, hread⟩ := Option.ite_none_right_eq_some.mp hread
    obtain ⟨target, htarget, hread⟩ := Option.map_eq_some_iff.mp hread
    cases hread
    have hrest : CutCode rest := hcut.tail.tail
    obtain ⟨hdest, hassign⟩ := hcut.operand_symbol hassign
    rw [List.map_cons, List.map_cons, hdest, hassign, tokens_of_readTarget? hrest htarget]
    exact .written (.call target (some dest.text))
  next => cases hread

theorem spells_of_readAddress? (hcut : CutCode lexemes)
    (hread : readAddress? lexemes = some (.ok operation)) :
    Spells operation (lexemes.map Lexeme.token) := by
  unfold readAddress? at hread
  split at hread
  next dest assign mark label =>
    obtain ⟨hshape, hread⟩ := Option.ite_none_right_eq_some.mp hread
    obtain ⟨hassign, hmark⟩ := Bool.and_eq_true_iff.mp hshape
    cases hread
    obtain ⟨hdest, hassign⟩ := hcut.operand_symbol hassign
    simp only [List.map_cons, List.map_nil]
    rw [hdest, hassign, hcut.tail.tail.symbol_eq hmark, hcut.tail.tail.tail.operand_last]
    exact .written (.load .address dest.text label.text)
  next => cases hread

theorem spells_of_readLoadEntry? (hcut : CutCode lexemes)
    (hread : readLoadEntry? lexemes = some (.ok operation)) :
    Spells operation (lexemes.map Lexeme.token) := by
  unfold readLoadEntry? at hread
  split at hread
  next dest assign base opening index closing =>
    obtain ⟨hshape, hread⟩ := Option.ite_none_right_eq_some.mp hread
    simp only [Bool.and_eq_true] at hshape
    obtain ⟨⟨hassign, hopening⟩, hclosing⟩ := hshape
    cases hread
    obtain ⟨hdest, hassign⟩ := hcut.operand_symbol hassign
    obtain ⟨hbase, hopening⟩ := hcut.tail.tail.operand_symbol hopening
    obtain ⟨hindex, hclosing⟩ := hcut.tail.tail.tail.tail.operand_symbol hclosing
    simp only [List.map_cons, List.map_nil]
    rw [hdest, hassign, hbase, hopening, hindex, hclosing]
    exact .written (.loadEntry dest.text base.text index.text)
  next => cases hread

theorem spells_of_readStoreEntry? (hcut : CutCode lexemes)
    (hread : readStoreEntry? lexemes = some (.ok operation)) :
    Spells operation (lexemes.map Lexeme.token) := by
  unfold readStoreEntry? at hread
  split at hread
  next base opening index closing assign source =>
    obtain ⟨hshape, hread⟩ := Option.ite_none_right_eq_some.mp hread
    simp only [Bool.and_eq_true] at hshape
    obtain ⟨⟨hopening, hclosing⟩, hassign⟩ := hshape
    cases hread
    obtain ⟨hbase, hopening⟩ := hcut.operand_symbol hopening
    obtain ⟨hindex, hclosing⟩ := hcut.tail.tail.operand_symbol hclosing
    simp only [List.map_cons, List.map_nil]
    rw [hbase, hopening, hindex, hclosing, hcut.tail.tail.tail.tail.symbol_eq hassign,
      hcut.tail.tail.tail.tail.tail.operand_last]
    exact .written (.storeEntry base.text index.text source.text)
  next => cases hread

theorem spells_of_readArithmetic? (hcut : CutCode lexemes)
    (hread : readArithmetic? lexemes = some (.ok operation)) :
    Spells operation (lexemes.map Lexeme.token) := by
  unfold readArithmetic? at hread
  split at hread
  next dest assign left sign right =>
    obtain ⟨hassign, hread⟩ := Option.ite_none_right_eq_some.mp hread
    obtain ⟨op, hop, hread⟩ := exists_ok_of_bind (Option.some.inj hread)
    cases hread
    obtain ⟨hdest, hassign⟩ := hcut.operand_symbol hassign
    obtain ⟨hleft, hsign⟩ := hcut.tail.tail.operand_symbol (Lexeme.isSymbol_of_arithmetic hop)
    simp only [List.map_cons, List.map_nil]
    rw [hdest, hassign, hleft, hsign, hcut.tail.tail.tail.tail.operand_last]
    exact .written (.binary op dest.text left.text right.text)
  next => cases hread

theorem spells_of_readCopy? (hcut : CutCode lexemes)
    (hread : readCopy? lexemes = some (.ok operation)) :
    Spells operation (lexemes.map Lexeme.token) := by
  unfold readCopy? at hread
  split at hread
  next dest assign source =>
    obtain ⟨hassign, hread⟩ := Option.ite_none_right_eq_some.mp hread
    cases hread
    obtain ⟨hdest, hassign⟩ := hcut.operand_symbol hassign
    simp only [List.map_cons, List.map_nil]
    rw [hdest, hassign, hcut.tail.tail.operand_last]
    split
    next => exact .written (.load .var dest.text source.text)
    next => exact .written (.load .constant dest.text source.text)
  next => cases hread

/-- A negation is spelled with parentheses or without them, as its operand is. -/
theorem spells_negation {op : Negation} {dest operand : String}
    (hlegal : (Operation.unary op dest operand).Legal) :
    Spells (.unary op dest operand)
      [operandToken dest, Symbol.assign.token, op.symbol.token, operandToken operand] := by
  have haccepts := accepts_of_legal_unary hlegal
  by_cases hint : isIntConstant operand = true
  · cases op with
    | minus => exact .bare hint
    | not =>
        have hform := (isIntConstant_iff haccepts).mp hint
        exact absurd hform (operandForm_ne_int haccepts fun _ => rfl)
  · have hwritten := Spells.written (.unary op dest operand)
    rwa [Operation.tokens, negatedTokens, if_neg hint] at hwritten

theorem spells_of_readNegation? (hcut : CutCode lexemes) (hlegal : operation.Legal)
    (hread : readNegation? lexemes = some (.ok operation)) :
    Spells operation (lexemes.map Lexeme.token) := by
  unfold readNegation? at hread
  split at hread
  next dest assign sign opening value closing =>
    obtain ⟨hshape, hread⟩ := Option.ite_none_right_eq_some.mp hread
    simp only [Bool.and_eq_true, beq_iff_eq] at hshape
    obtain ⟨⟨⟨⟨hassign, hsign⟩, hopening⟩, hkind⟩, hclosing⟩ := hshape
    cases hread
    have haccepts := accepts_of_legal_unary hlegal
    obtain ⟨hdest, hassign⟩ := hcut.operand_symbol hassign
    obtain ⟨hvalue, hclosing⟩ := hcut.tail.tail.tail.tail.operand_symbol hclosing
    have hint : isIntConstant value.text = true := by
      rw [isIntConstant_iff haccepts, ← hkind]
      exact (congrArg Token.kind hvalue).symm
    simp only [List.map_cons, List.map_nil]
    rw [hdest, hassign, hcut.tail.tail.symbol_eq hsign, hcut.tail.tail.tail.symbol_eq hopening,
      hvalue, hclosing]
    have hwritten := Spells.written (.unary .minus dest.text value.text)
    rwa [Operation.tokens, negatedTokens, if_pos hint] at hwritten
  next dest assign sign operand =>
    have hoperand := hcut.tail.tail.tail.operand_last
    simp only [List.map_cons, List.map_nil]
    split at hread
    next hshape =>
      obtain ⟨hassign, hsign⟩ := Bool.and_eq_true_iff.mp hshape
      cases hread
      obtain ⟨hdest, hassign⟩ := hcut.operand_symbol hassign
      rw [hdest, hassign, hcut.tail.tail.symbol_eq hsign, hoperand]
      exact spells_negation hlegal
    next =>
      obtain ⟨hshape, hread⟩ := Option.ite_none_right_eq_some.mp hread
      obtain ⟨hassign, hsign⟩ := Bool.and_eq_true_iff.mp hshape
      cases hread
      obtain ⟨hdest, hassign⟩ := hcut.operand_symbol hassign
      rw [hdest, hassign, hcut.tail.tail.symbol_eq hsign, hoperand]
      exact spells_negation hlegal
  next => cases hread

/-- Whichever shape recognises a legal operation, its tokens are a spelling of it. -/
theorem spells_of_readOperation (hcut : CutCode lexemes) (hlegal : operation.Legal)
    (hread : readOperation lexemes = .ok operation) :
    Spells operation (lexemes.map Lexeme.token) := by
  have hsome : shapes.findSome? (fun shape => shape lexemes) = some (.ok operation) := by
    rw [readOperation] at hread
    cases hfound : shapes.findSome? fun shape => shape lexemes with
    | none =>
        rw [hfound] at hread
        cases hread
    | some reading =>
        rw [hfound] at hread
        exact congrArg some hread
  -- it does not matter that the shapes before this one have failed
  obtain ⟨shape, hshape, hread⟩ := List.exists_of_findSome?_eq_some hsome
  simp only [shapes, List.mem_cons, List.not_mem_nil, or_false] at hshape
  rcases hshape with rfl | rfl | rfl | rfl | rfl | rfl | rfl | rfl | rfl | rfl | rfl
  · exact spells_of_readBranch? hcut hread
  · exact spells_of_readReturn? hcut hread
  · exact spells_of_readParam? hcut hread
  · exact spells_of_readCall? hcut hread
  · exact spells_of_readKeptCall? hcut hread
  · exact spells_of_readAddress? hcut hread
  · exact spells_of_readNegation? hcut hlegal hread
  · exact spells_of_readLoadEntry? hcut hread
  · exact spells_of_readStoreEntry? hcut hread
  · exact spells_of_readArithmetic? hcut hread
  · exact spells_of_readCopy? hcut hread

end Readers

/-! ## Texts -/

/-- The operands of an operation are tokens of every spelling. -/
theorem Spells.operandToken_mem {operation : Operation} {tokens : List Token}
    (hspells : Spells operation tokens) :
    ∀ demand ∈ operation.demands, operandToken demand.operand ∈ tokens := by
  cases hspells with
  | written =>
      rcases operation with ⟨op, left, right, onTrue, onFalse⟩ | ⟨_ | _, _ | dest⟩ | (_ | value) |
        ⟨_ | _ | _, value⟩ | ⟨_ | _ | _, dest, source⟩ | ⟨dest, base, index⟩ |
        ⟨base, index, source⟩ | ⟨op, dest, operand⟩ | ⟨op, dest, left, right⟩
      case unary =>
        simp only [Operation.demands, Operation.tokens, negatedTokens]
        split <;> simp
      all_goals
        simp [Operation.demands, Operation.targetDemand, Operation.tokens, CallTarget.tokens]
  | padded => simp [Operation.demands]
  | bare => simp [Operation.demands]

/-- No token of a spelling is of a kind that the written operation does not have. -/
theorem Spells.exists_kind_eq {operation : Operation} {tokens : List Token}
    (hspells : Spells operation tokens) {token : Token} (htoken : token ∈ tokens) :
    ∃ other ∈ operation.tokens, other.kind = token.kind := by
  cases hspells with
  | written => exact ⟨token, htoken, rfl⟩
  | @padded op left right onTrue onFalse first second hfirst hsecond =>
      have hkinds : [wordOf "if", operandToken left, op.symbol.token, operandToken right,
          wordOf "goto", first, wordOf "else", second].map Token.kind =
          (Operation.branch op left right onTrue onFalse).tokens.map Token.kind := by
        simp [Operation.tokens, ← hfirst, ← hsecond, Token.kind_unpadded]
      rw [← List.mem_map, ← hkinds]
      exact List.mem_map_of_mem htoken
  | bare hint =>
      refine ⟨token, ?_, rfl⟩
      simp only [Operation.tokens, negatedTokens, hint, if_true, Negation.symbol]
      simp only [List.mem_cons, List.not_mem_nil, or_false] at htoken ⊢
      tauto

theorem Lexeme.spellsComment {lexeme : Lexeme} {body : List Char}
    (htoken : lexeme.token = ⟨.comment, '/' :: '/' :: body⟩) :
    SpellsComment lexeme.commentBody lexeme.token := by
  have htext : lexeme.text.toList.drop 2 = body := by
    rw [show lexeme.text.toList = '/' :: '/' :: body from congrArg Token.chars htoken]
    rfl
  rw [htoken, Lexeme.commentBody, htext]
  split
  next body =>
    have hspaced := SpellsComment.spaced (String.ofList body)
    rwa [commentToken, String.toList_ofList] at hspaced
  next hhead =>
    have htight := @SpellsComment.tight (String.ofList body)
    rw [String.toList_ofList] at htight
    apply htight
    intro hblank
    obtain ⟨rest, hrest⟩ := List.head?_eq_some_iff.mp hblank
    exact hhead rest hrest

/-- How a text spells an instruction: with the code of the operation, up to the allowed ways
of writing it, then a semicolon, then the comments. -/
structure SpelledBy (text : String) (instruction : Instruction) (code comments : List Token) :
    Prop where
  scanned : (Scan.ofText text).failedAt = none
  tokens : (Scan.ofText text).lexemes.map Lexeme.token =
    code ++ Symbol.semicolon.token :: comments
  plain : ∀ token ∈ code, token.kind ≠ .comment ∧ token.kind ≠ .symbol .semicolon
  legal : instruction.operation.Legal
  /-- In normal spelling the code is that of the written operation. -/
  written : (Scan.ofText instruction.operation.text).lexemes.map Lexeme.token =
    normalized code ++ [Symbol.semicolon.token]
  operands : ∀ demand ∈ instruction.operation.demands, operandToken demand.operand ∈ code
  comments : List.Forall₂ SpellsComment instruction.comments comments

/-- The written form of a legal operation is its tokens and a semicolon. -/
theorem Operation.tokens_text {operation : Operation} (hlegal : operation.Legal) :
    (Scan.ofText operation.text).lexemes.map Lexeme.token =
      operation.tokens ++ [Symbol.semicolon.token] := by
  have hscans := scans_operation hlegal Scans.nil
  rw [List.append_nil] at hscans
  exact (scanFrom_of_scans hscans 0).2

theorem Scans.cut {text : List Char} {tokens : List Token} (hscans : Scans text tokens) :
    Cut tokens where
  symbols := fun _ htoken _ hkind => hscans.token_eq_symbol htoken hkind
  alone := hscans.isChain_alone

theorem spelledBy_of_parts {text : String} {code comments : List Lexeme} {semicolon : Lexeme}
    (hparts : Parts text code semicolon comments) {instruction : Instruction}
    (hread : readOperation code = .ok instruction.operation)
    (hlegal : instruction.operation.Legal)
    (hcomments : comments.map Lexeme.commentBody = instruction.comments) :
    SpelledBy text instruction (code.map Lexeme.token) (comments.map Lexeme.token) := by
  have hscans := scans_of_scanFrom hparts.scanned
  have hlexemes : (Scan.scanFrom 0 text.toList).lexemes = code ++ semicolon :: comments :=
    hparts.lexemes_eq
  rw [hlexemes, List.map_append, List.map_cons] at hscans
  have hsemicolon : semicolon.token = Symbol.semicolon.token :=
    hscans.token_eq_symbol (List.mem_append_right _ List.mem_cons_self)
      (beq_iff_eq.mp hparts.semicolon)
  rw [hsemicolon] at hscans
  have hcut : CutCode code := by
    have hall := hscans.cut
    rw [← List.singleton_append, ← List.append_assoc] at hall
    exact hall.left
  have hspells := spells_of_readOperation hcut hlegal hread
  exact {
    scanned := hparts.scanned
    tokens := by rw [hparts.lexemes_eq, List.map_append, List.map_cons, hsemicolon]
    plain := by
      intro token htoken
      obtain ⟨other, hother, hkind⟩ := hspells.exists_kind_eq htoken
      rw [← hkind]
      exact kind_ne_of_mem_tokens hlegal other hother
    legal := hlegal
    written := by
      rw [Operation.tokens_text hlegal, normalized_eq_tokens_of_spells hlegal hspells]
    operands := hspells.operandToken_mem
    comments := by
      rw [← hcomments, List.forall₂_map_left_iff, List.forall₂_map_right_iff, List.forall₂_same]
      intro lexeme hlexeme
      have hmem : lexeme.token ∈ comments.map Lexeme.token := List.mem_map_of_mem hlexeme
      have hkind : lexeme.token.kind = .comment :=
        beq_iff_eq.mp (List.all_eq_true.mp hparts.comments lexeme hlexeme)
      obtain ⟨body, htoken⟩ := hscans.exists_comment
        (List.mem_append_right _ (List.mem_cons_of_mem _ hmem)) hkind
      exact Lexeme.spellsComment htoken }

theorem readText_of_spelledBy {text : String} {instruction : Instruction}
    {code comments : List Token} (hspelled : SpelledBy text instruction code comments) :
    readText text = .ok instruction := by
  have hlegal := hspelled.legal
  obtain ⟨lexemes, rest, hlexemes, rfl, hrest⟩ := List.map_eq_append_iff.mp hspelled.tokens
  obtain ⟨semicolon, last, rfl, hsemicolon, rfl⟩ := List.map_eq_cons_iff.mp hrest
  obtain ⟨hbodies, hall⟩ := comments_of_spellsComment hspelled.comments
  have hparts : Parts text lexemes semicolon last :=
    { scanned := hspelled.scanned
      lexemes_eq := hlexemes
      code := by
        intro lexeme hlexeme
        exact beq_eq_false_iff_ne.mpr (hspelled.plain _ (List.mem_map_of_mem hlexeme)).1
      semicolon := beq_iff_eq.mpr (congrArg Token.kind hsemicolon)
      comments := hall }
  have hnormal := hspelled.written
  rw [Operation.tokens_text hlegal] at hnormal
  have hspells := spells_of_normalized_eq hlegal (List.append_cancel_right hnormal).symm
  rw [hparts.readText_eq, readOperation_of_spells hlegal hspells, hbodies]
  rfl

/-- A text is read as an instruction just when it spells it. -/
theorem Instruction.read_eq_ok_iff {text : String} {instruction : Instruction} :
    Instruction.read text = .ok instruction ↔
      ∃ code comments, SpelledBy text instruction code comments := by
  rw [Instruction.read_eq_ok_iff_readText]
  constructor
  · rintro ⟨hread, hlegal⟩
    obtain ⟨code, semicolon, comments, hparts, hoperation, hcomments⟩ :=
      exists_parts_of_readText hread
    exact ⟨_, _, spelledBy_of_parts hparts hoperation hlegal hcomments⟩
  · rintro ⟨code, comments, hspelled⟩
    exact ⟨readText_of_spelledBy hspelled, hspelled.legal⟩

end ClassLang.Code
