/-
# Texts tiled by their tokens

A scan leaves out nothing of a text but blanks. What it has gone through is made of its
lexemes, each the longest match at the byte where it says that it starts, with blanks
before, between and after them; and if it stops before the end, no token begins there. The
scan is the only one of which this can be said.

The tokens do not depend on how they are kept apart. Written again with a single blank
after each, they are found again, with one exception: a keyword that was read as a name,
since a dollar sign came right after it, is read as a keyword.
-/

import Mathlib.Data.List.Forall2
import ClassLang.Proofs.Code.LongestMatch

namespace ClassLang.Code

/-! ## Tilings -/

/-- The characters that may stand between tokens. -/
def blanks : List Char :=
  [' ', '\t', '\x0c', '\r', '\n']

/-- A piece of text from byte `offset` on that is made of these lexemes, with blanks before,
between and after them. It stands before the text `after`. -/
inductive Tiled (after : List Char) : Nat → List Lexeme → List Char → Prop
  | gap {offset : Nat} {gap : List Char} (hgap : ∀ c ∈ gap, c ∈ blanks) : Tiled after offset [] gap
  | lexeme {offset : Nat} {gap rest : List Char} {lexeme : Lexeme} {lexemes : List Lexeme}
      (hgap : ∀ c ∈ gap, c ∈ blanks) (hstart : lexeme.start = offset + byteLength gap)
      (hlongest : Longest lexeme.kind lexeme.text.toList (rest ++ after))
      (hrest : Tiled after (lexeme.start + byteLength lexeme.text.toList) lexemes rest) :
      Tiled after offset (lexeme :: lexemes) (gap ++ (lexeme.text.toList ++ rest))

/-- A text that begins neither with a blank nor with a token. -/
structure NoToken (text : List Char) : Prop where
  head : ∃ c ∈ text.head?, c ∉ blanks
  none : ∀ {kind : TokenKind} {chars : List Char}, Fits kind chars → ¬ chars <+: text

/-- How a scan ends that has come to byte `place`: at the end of the text, or where no token
begins. -/
inductive Ends : Nat → List Char → Option Nat → Prop
  | done {place : Nat} : Ends place [] none
  | stuck {place : Nat} {after : List Char} (hnone : NoToken after) : Ends place after (some place)

theorem mem_blanks {c : Char} : c ∈ blanks ↔ isBlank c = true := by
  simp [blanks, isBlank, or_assoc]

theorem byteLength_append (first second : List Char) :
    byteLength (first ++ second) = byteLength first + byteLength second := by
  induction first with
  | nil => exact (Nat.zero_add _).symm
  | cons c first ih => rw [List.cons_append, byteLength, byteLength, ih, Nat.add_assoc]

theorem Tiled.cons_blank {after : List Char} {c : Char} {offset : Nat} {lexemes : List Lexeme}
    {before : List Char} (hc : c ∈ blanks)
    (htiled : Tiled after (offset + c.utf8Size) lexemes before) :
    Tiled after offset lexemes (c :: before) := by
  cases htiled with
  | gap hgap => exact .gap (List.forall_mem_cons.mpr ⟨hc, hgap⟩)
  | lexeme hgap hstart hlongest hrest =>
      rw [Nat.add_assoc] at hstart
      exact .lexeme (List.forall_mem_cons.mpr ⟨hc, hgap⟩) hstart hlongest hrest

theorem Tiled.cons_token {after rest : List Char} {token : Token} {offset : Nat}
    {lexemes : List Lexeme} (hlongest : Longest token.kind token.chars (rest ++ after))
    (hrest : Tiled after (offset + byteLength token.chars) lexemes rest) :
    Tiled after offset (⟨token.kind, offset, String.ofList token.chars⟩ :: lexemes)
      (token.chars ++ rest) := by
  have hcons := @Tiled.lexeme after offset [] rest
    ⟨token.kind, offset, String.ofList token.chars⟩ lexemes (List.forall_mem_nil _) rfl
  simp only [String.toList_ofList] at hcons
  exact hcons hlongest hrest

/-- What has been scanned is tiled. -/
theorem exists_tiled (offset : Nat) (text : List Char) :
    ∃ before after, text = before ++ after ∧
      Tiled after offset (Scan.scanFrom offset text).lexemes before ∧
      Ends (offset + byteLength before) after (Scan.scanFrom offset text).failedAt := by
  fun_induction Scan.scanFrom offset text with
  | case1 offset => exact ⟨[], [], rfl, .gap (List.forall_mem_nil _), .done⟩
  | case2 offset c rest hblank ih =>
      obtain ⟨before, after, hrest, htiled, hends⟩ := ih
      rw [Nat.add_assoc] at hends
      exact ⟨c :: before, after, congrArg (c :: ·) hrest, htiled.cons_blank (mem_blanks.mpr hblank),
        hends⟩
  | case3 offset c rest hblank hnone =>
      refine ⟨[], c :: rest, rfl, .gap (List.forall_mem_nil _), .stuck ⟨⟨c, rfl, ?_⟩, ?_⟩⟩
      · rwa [mem_blanks]
      · exact at?_eq_none_iff.mp hnone
  | case4 offset c rest hblank token htoken tail ih =>
      obtain ⟨before, after, hrest, htiled, hends⟩ := ih
      obtain ⟨next, hnext, -⟩ := found_of_at? htoken
      rw [hnext, List.drop_left] at hrest
      rw [hnext, hrest] at htoken
      refine ⟨token.chars ++ before, after, ?_, ?_, ?_⟩
      · rw [hnext, hrest, List.append_assoc]
      · exact .cons_token (at?_append_eq_some_iff.mp htoken) htiled
      · rwa [byteLength_append, ← Nat.add_assoc]

/-! ## Only the scan tiles its text -/

theorem Scan.scanFrom_gap {gap : List Char} (hgap : ∀ c ∈ gap, c ∈ blanks) (offset : Nat)
    (rest : List Char) :
    Scan.scanFrom offset (gap ++ rest) = Scan.scanFrom (offset + byteLength gap) rest := by
  induction gap generalizing offset with
  | nil => rfl
  | cons c gap ih =>
      rw [List.forall_mem_cons] at hgap
      rw [List.cons_append, Scan.scanFrom, if_pos (mem_blanks.mp hgap.1), ih hgap.2, byteLength,
        Nat.add_assoc]

theorem Scan.scanFrom_stuck {text : List Char} (hnone : NoToken text) (offset : Nat) :
    Scan.scanFrom offset text = ⟨[], some offset⟩ := by
  obtain ⟨c, hc, hblank⟩ := hnone.head
  obtain ⟨rest, rfl⟩ := List.head?_eq_some_iff.mp hc
  rw [mem_blanks] at hblank
  rw [Scan.scanFrom, if_neg hblank]
  split
  next => rfl
  next token htoken =>
    rw [at?_eq_none_iff.mpr hnone.none] at htoken
    cases htoken

theorem Ends.scanFrom_eq {place : Nat} {after : List Char} {failedAt : Option Nat}
    (hends : Ends place after failedAt) : Scan.scanFrom place after = ⟨[], failedAt⟩ := by
  cases hends with
  | done => rw [Scan.scanFrom]
  | stuck hnone => exact Scan.scanFrom_stuck hnone place

/-- A text that is tiled in some way is scanned in that way. -/
theorem Tiled.scanFrom_eq {after before : List Char} {offset : Nat} {lexemes : List Lexeme}
    {failedAt : Option Nat} (htiled : Tiled after offset lexemes before)
    (hends : Ends (offset + byteLength before) after failedAt) :
    Scan.scanFrom offset (before ++ after) = ⟨lexemes, failedAt⟩ := by
  induction htiled with
  | gap hgap => rw [Scan.scanFrom_gap hgap, hends.scanFrom_eq]
  | @lexeme offset gap rest lexeme lexemes hgap hstart hlongest hrest ih =>
      rw [byteLength_append, byteLength_append, ← Nat.add_assoc, ← Nat.add_assoc, ← hstart]
        at hends
      have htoken : Token.at? (lexeme.token.chars ++ (rest ++ after)) = some lexeme.token :=
        at?_append_eq_some_iff.mpr hlongest
      have hscan := Scan.scanFrom_token htoken lexeme.start
      simp only [Lexeme.token, ih hends, String.ofList_toList] at hscan
      rw [List.append_assoc, List.append_assoc, Scan.scanFrom_gap hgap, ← hstart, hscan]

/-! ## What follows a lexeme -/

/-- The text that stands right after a lexeme. -/
def Lexeme.Precedes (lexeme : Lexeme) (text : String) (next : List Char) : Prop :=
  ∃ front, text.toList = front ++ (lexeme.text.toList ++ next) ∧ lexeme.start = byteLength front

theorem Tiled.precedes {after before : List Char} {offset : Nat} {lexemes : List Lexeme}
    (htiled : Tiled after offset lexemes before) {text : String} {front : List Char}
    (htext : text.toList = front ++ (before ++ after)) (hoffset : offset = byteLength front) :
    ∀ lexeme ∈ lexemes, ∃ next, lexeme.Precedes text (next ++ after) ∧
      Longest lexeme.kind lexeme.text.toList (next ++ after) ∧
      ∃ place more, Tiled after place more next := by
  induction htiled generalizing front with
  | gap => exact fun lexeme hlexeme => absurd hlexeme List.not_mem_nil
  | @lexeme offset gap rest lexeme lexemes hgap hstart hlongest hrest ih =>
      rw [hoffset, ← byteLength_append] at hstart
      refine List.forall_mem_cons.mpr
        ⟨⟨rest, ⟨front ++ gap, ?_, hstart⟩, hlongest, _, _, hrest⟩, ?_⟩
      · simpa using htext
      · refine @ih (front ++ gap ++ lexeme.text.toList) ?_ ?_
        · simpa using htext
        · rw [byteLength_append, hstart]

/-- A dot is never where a token begins. -/
theorem noToken_dot (rest : List Char) : NoToken ('.' :: rest) where
  head := ⟨'.', rfl, by decide⟩
  none := by
    apply at?_eq_none_iff.mp
    simp [Token.at?, isNameStart, symbolToken?, Symbol.at?, Symbol.all, Symbol.chars]

theorem Tiled.head_ne_dot {offset : Nat} {lexemes : List Lexeme} {text : List Char}
    (htiled : Tiled [] offset lexemes text) : ∀ c ∈ text.head?, c ≠ '.' := by
  rintro c hc rfl
  obtain ⟨rest, rfl⟩ := List.head?_eq_some_iff.mp hc
  have hscan := htiled.scanFrom_eq .done
  rw [List.append_nil, Scan.scanFrom_stuck (noToken_dot rest)] at hscan
  cases hscan

/-! ## Lexemes written again -/

/-- The text of lexemes with one blank after each but the last: a line end after a comment,
and a space after any other. -/
def respaced : List Lexeme → List Char
  | [] => []
  | [lexeme] => lexeme.text.toList
  | lexeme :: next :: lexemes =>
    lexeme.text.toList ++ lexeme.kind.separator :: respaced (next :: lexemes)

/-- A keyword that is read as a name, with one of the marks right after it. -/
structure Lexeme.Masked (text : String) (marks : List Char) (lexeme : Lexeme)
    (word : TokenKind) : Prop where
  name : lexeme.kind = .name
  keyword : IsKeyword word lexeme.text.toList
  marked : ∃ c ∈ marks, ∃ next, lexeme.Precedes text (c :: next)

/-- How a lexeme of a text is found again when it stands apart. -/
structure Lexeme.Recurs (text : String) (marks : List Char) (lexeme again : Lexeme) : Prop where
  text_eq : again.text = lexeme.text
  /-- The mark is gone, so the keyword is read as what it is. -/
  keyword : ∀ word, lexeme.Masked text marks word → again.kind = word
  kind_eq : (∀ word, ¬ lexeme.Masked text marks word) → again.kind = lexeme.kind

/-- Lexemes of a text are found again when they are written apart. -/
structure FoundAgain (text : String) (marks : List Char) (lexemes : List Lexeme) : Prop where
  failedAt : (Scan.ofText (String.ofList (respaced lexemes))).failedAt = none
  lexemes : List.Forall₂ (Lexeme.Recurs text marks) lexemes
    (Scan.ofText (String.ofList (respaced lexemes))).lexemes

theorem TokenKind.isBlank_separator (kind : TokenKind) : isBlank kind.separator = true := by
  unfold TokenKind.separator
  split <;> rfl

theorem Token.chars_apart (token : Token) : token.apart.chars = token.chars := by
  unfold Token.apart
  split <;> rfl

theorem scans_apart {lexeme : Lexeme} {rest : List Char} {tokens : List Token}
    (hfits : Fits lexeme.kind lexeme.text.toList)
    (hhead : ∀ c ∈ rest.head?, c = lexeme.kind.separator) (hrest : Scans rest tokens) :
    Scans (lexeme.text.toList ++ rest) (lexeme.token.apart :: tokens) := by
  have hscans := @Scans.token lexeme.token.apart rest tokens
  rw [Token.chars_apart] at hscans
  exact hscans (hfits.at?_apart hhead) hrest

theorem scans_respaced {lexemes : List Lexeme}
    (hfits : ∀ lexeme ∈ lexemes, Fits lexeme.kind lexeme.text.toList) :
    Scans (respaced lexemes) (lexemes.map fun lexeme => lexeme.token.apart) := by
  induction lexemes with
  | nil => exact .nil
  | cons lexeme lexemes ih =>
      rw [List.forall_mem_cons] at hfits
      cases lexemes with
      | nil =>
          have hlast := scans_apart hfits.1 (fun c hc => absurd hc (by simp)) Scans.nil
          rwa [List.append_nil] at hlast
      | cons next lexemes =>
          refine scans_apart hfits.1 (fun c hc => ?_) (.blank ?_ (ih hfits.2))
          · exact (Option.some.inj hc).symm
          · exact lexeme.kind.isBlank_separator

/-- What is found apart is the same, or the keyword that was read as a name. -/
theorem Lexeme.recurs_of_token {text : String} {marks next : List Char} {lexeme again : Lexeme}
    (hlongest : Longest lexeme.kind lexeme.text.toList next)
    (hprecedes : lexeme.Precedes text next)
    (hmarks : ∀ c ∈ next.head?, c = '.' ∨ c = '$' → c ∈ marks)
    (hagain : again.token = lexeme.token.apart) : Lexeme.Recurs text marks lexeme again where
  text_eq := by
    have hchars : again.text.toList = lexeme.token.apart.chars := congrArg Token.chars hagain
    rw [Token.chars_apart] at hchars
    exact String.toList_inj.mp hchars
  keyword := by
    intro word hmasked
    have hname : lexeme.token.kind = .name := hmasked.name
    have hkind : again.kind = lexeme.token.apart.kind := congrArg Token.kind hagain
    rw [hkind, Token.apart, if_pos hname]
    exact hmasked.keyword.wordKind_eq
  kind_eq := by
    intro hmasked
    have hkind : again.kind = lexeme.token.apart.kind := congrArg Token.kind hagain
    rw [hkind, Token.apart]
    split
    next hname =>
      rcases isKeyword_wordKind_or lexeme.text.toList with hword | hplain
      · -- a keyword is read as a name only before a mark
        by_cases hleads : LeadsOn next
        · obtain ⟨c, hc, hmark⟩ := hleads
          obtain ⟨rest, rfl⟩ := List.head?_eq_some_iff.mp hc
          exact absurd ⟨hname, hword, c, hmarks c hc hmark, rest, hprecedes⟩ (hmasked _)
        · exact absurd ((hlongest.keyword hword hleads).symm.trans hname) hword.kind_ne_name
      · exact hplain.trans hname.symm
    next => rfl

theorem foundAgain_of_forall {text : String} {marks : List Char} {lexemes : List Lexeme}
    (hall : ∀ lexeme ∈ lexemes, ∃ next, lexeme.Precedes text next ∧
      Longest lexeme.kind lexeme.text.toList next ∧
      ∀ c ∈ next.head?, c = '.' ∨ c = '$' → c ∈ marks) : FoundAgain text marks lexemes := by
  have hfits : ∀ lexeme ∈ lexemes, Fits lexeme.kind lexeme.text.toList := by
    intro lexeme hlexeme
    obtain ⟨_, _, hlongest, _⟩ := hall lexeme hlexeme
    exact hlongest.fits
  obtain ⟨hdone, htokens⟩ := scanFrom_of_scans (scans_respaced hfits) 0
  have hscan : Scan.ofText (String.ofList (respaced lexemes)) =
      Scan.scanFrom 0 (respaced lexemes) := by
    rw [Scan.ofText, String.toList_ofList]
  have hsame := htokens.symm
  rw [← List.forall₂_eq_eq_eq, List.forall₂_map_left_iff, List.forall₂_map_right_iff] at hsame
  constructor
  · rw [hscan, hdone]
  · rw [hscan]
    refine ((List.forall₂_and_left _ _).mpr ⟨hall, hsame⟩).imp ?_
    rintro lexeme again ⟨⟨next, hprecedes, hlongest, hmarks⟩, hagain⟩
    exact Lexeme.recurs_of_token hlongest hprecedes hmarks hagain.symm

/-! ## Scans of whole texts -/

/-- What a scan says of a text. -/
inductive Scan.Tiles (text : String) : Scan → Prop
  /-- The whole text is tiled. -/
  | whole {lexemes : List Lexeme} (htiled : Tiled [] 0 lexemes text.toList)
      (hagain : FoundAgain text ['$'] lexemes) : Tiles text ⟨lexemes, none⟩
  /-- The text is tiled up to a place where no token begins. -/
  | stuck {lexemes : List Lexeme} {before after : List Char}
      (htext : text.toList = before ++ after) (htiled : Tiled after 0 lexemes before)
      (hnone : NoToken after) (hagain : FoundAgain text ['.', '$'] lexemes) :
      Tiles text ⟨lexemes, some (byteLength before)⟩

theorem Scan.eq_ofText_of_tiles {text : String} {scan : Scan} (htiles : scan.Tiles text) :
    scan = Scan.ofText text := by
  cases htiles with
  | whole htiled =>
      have hscan := htiled.scanFrom_eq .done
      rw [List.append_nil] at hscan
      exact hscan.symm
  | stuck htext htiled hnone =>
      have hscan := htiled.scanFrom_eq (.stuck hnone)
      rw [← htext, Nat.zero_add] at hscan
      exact hscan.symm

theorem Scan.tiles_ofText (text : String) : (Scan.ofText text).Tiles text := by
  obtain ⟨before, after, htext, htiled, hends⟩ := exists_tiled 0 text.toList
  show (Scan.scanFrom 0 text.toList).Tiles text
  generalize Scan.scanFrom 0 text.toList = scan at htiled hends ⊢
  obtain ⟨lexemes, failedAt⟩ := scan
  have hall := @Tiled.precedes after before 0 lexemes htiled text [] htext rfl
  cases hends with
  | done =>
      rw [List.append_nil] at htext
      subst htext
      refine .whole htiled (foundAgain_of_forall fun lexeme hlexeme => ?_)
      obtain ⟨next, hprecedes, hlongest, _, _, hnext⟩ := hall lexeme hlexeme
      rw [List.append_nil] at hprecedes hlongest
      refine ⟨next, hprecedes, hlongest, fun c hc hmark => ?_⟩
      rw [hmark.resolve_left (hnext.head_ne_dot c hc)]
      exact List.mem_cons_self
  | stuck hnone =>
      rw [Nat.zero_add]
      refine .stuck htext htiled hnone (foundAgain_of_forall fun lexeme hlexeme => ?_)
      obtain ⟨next, hprecedes, hlongest, _⟩ := hall lexeme hlexeme
      exact ⟨next ++ after, hprecedes, hlongest, fun c _ hmark => by simpa using hmark⟩

/-- Every text is tiled by its scan, and by no other; and the tokens of a text are found again
when they are written apart. -/
theorem Scan.ofText_tiles (text : String) :
    (Scan.ofText text).Tiles text ∧ ∀ scan : Scan, scan.Tiles text → scan = Scan.ofText text :=
  ⟨Scan.tiles_ofText text, fun _ htiles => Scan.eq_ofText_of_tiles htiles⟩

-- The dollar sign makes a name of the keyword, and a space would not.
example : (Scan.ofText "this$t1").lexemes.map Lexeme.kind = [.name, .temp] ∧
    (Scan.ofText "this $t1").lexemes.map Lexeme.kind = [.thisWord, .temp] := by
  decide +kernel

end ClassLang.Code
