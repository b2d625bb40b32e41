import BlockLexer.Command.Run
import BlockLexer.Proofs.Listings
import BlockLexer.Proofs.MarkerNames
import BlockLexer.Proofs.StuckScans
import BlockLexer.Proofs.Terms

/-!
# What the command prints

A run of the command prints the tokens of a file, each on one line, or it prints nothing.  One token
takes one line because the names of a body, which are written as they are, stand on the line of its
marker.

* `Scan.kind_of_body_value`: no piece but that of a body has the value of a body.
* `Lexer.lineFeed_not_mem_names`: the names of a body that a lexer yields hold no line feed.
* `Command.Request.read_given`: every path can be given, with all options.
* `Command.perform_of_ok` and `Command.perform_of_error` say what a run of an action leaves behind,
  and `Command.prints_all_or_nothing` says it of runs of `lex` and `check` on one file.
-/

namespace BlockLexer

open Text Decimal Files

/-! ## The names of bodies -/

theorem Text.mem_of_mem_trim {cs : List Char} {c : Char} (h : c ∈ trim cs) : c ∈ cs := by
  obtain ⟨spaces, hcut, -⟩ := exists_spaces (trimStart cs)
  have hmem : c ∈ trimStart cs := hcut ▸ List.mem_append_left spaces h
  exact (List.dropWhile_suffix isSpace).subset hmem

/-- What is in a name is in the text that it is read from. -/
theorem mem_of_mem_namesIn {cs name : List Char} {c : Char} (hname : name ∈ namesIn cs)
    (hc : c ∈ name) : c ∈ cs := by
  obtain ⟨piece, hpiece, rfl⟩ := List.mem_map.1 (List.mem_of_mem_filter hname)
  exact mem_of_mem_splitBy hpiece (mem_of_mem_trim hc)

/-- A string has a text as its value. -/
theorem Assembly.exists_value_of_literal {style : QuoteStyle} {start stop : Piece}
    {text : List Char} {token : Token} (h : literal style start stop text = .ok token) :
    ∃ chars, token.value = .text chars := by
  unfold literal at h
  split at h
  · cases h
  · cases h
    exact ⟨_, rfl⟩

namespace Scan

variable {table : LineTable} {s t a : Scan} {rule : Rule} {m : Match} {piece : Piece}

/-- What has the value of a body is a body. -/
theorem kind_of_body_value {body : BodyText} (hstep : s.step table = (t, some (.ok piece)))
    (hvalue : piece.value = .body body) : piece.kind = .token .body := by
  rcases exists_of_step (some piece) hstep with ⟨-, -, hfinish⟩ | ⟨rule, m, a, -, -, -, hact, -⟩
  · obtain ⟨-, rfl⟩ := eq_of_finish (Option.some.inj hfinish).symm
    cases hvalue
  cases accepts_of_act hact with
  | lastBodyLine => rfl
  | _ => cases hvalue

end Scan

/-- The names of a body that a lexer yields stand on one line. -/
theorem Lexer.lineFeed_not_mem_names {source : Source} {tokens : List Token} {lexer : Lexer}
    {token : Token} {body : BodyText} (hsource : source.IsPrepared)
    (hyields : stage.Yields (ofSource source) tokens lexer) (htoken : token ∈ tokens)
    (hvalue : token.value = .body body) : ∀ name ∈ body.names, '\n' ∉ name := by
  obtain ⟨pieces, hrun, hassembled, -⟩ := assembled_of_yields hyields
  obtain ⟨before, made, after, rfl, hmakes⟩ := hassembled.exists_makes htoken
  obtain ⟨_, _, _, _, hsource⟩ := hsource.exists_ofText
  cases hmakes with
  | string _ _ _ hliteral =>
    obtain ⟨chars, htext⟩ := Assembly.exists_value_of_literal hliteral
    cases htext.symm.trans hvalue
  | @token piece kind hkind =>
    have hpiece : piece ∈ before ++ ([piece] ++ after) := by simp
    obtain ⟨_, _, _, -, -, hstep⟩ := hrun.exists_of_mem hpiece
    have hbody : piece.kind = .token .body := Scan.kind_of_body_value hstep hvalue
    rw [Source.table_of_ofText hsource] at hrun
    obtain ⟨o, m, passed, body', hopens, -, -, hvalue', hnames⟩ :=
      Scan.exists_opens_of_piece (Source.closed_of_ofText hsource) hrun rfl rfl rfl rfl hpiece hbody
    obtain rfl := Value.body.inj (hvalue'.symm.trans hvalue)
    intro name hname hfeed
    rw [hnames] at hname
    split at hname
    · exact Rule.lineFeed_not_mem_of_bodyMarker (Mode.match?_of_select hopens.select)
        (List.mem_of_mem_drop (mem_of_mem_namesIn hname hfeed))
    · cases hname

/-- The digits of a number are read back. -/
theorem Decimal.readNat?_toDigits (n : Nat) : readNat? (Nat.toDigits 10 n) = some n := by
  have hdigits : ∀ c ∈ Nat.toDigits 10 n, c.isDigit = true :=
    fun c hc => Nat.isDigit_of_mem_toDigits (by decide) (by decide) hc
  have hvalue : natOfDigits 10 (Nat.toDigits 10 n) = n := natOfDigits_integer 0 n
  have hne : Nat.toDigits 10 n ≠ [] := Nat.toDigits_ne_nil
  generalize Nat.toDigits 10 n = digits at hdigits hvalue hne
  have hsome : (if digits.isEmpty || !digits.all Char.isDigit then none
      else some (natOfDigits 10 digits)) = some n := by
    rw [if_neg, hvalue]
    simpa [hne] using hdigits
  unfold readNat?
  split
  · cases hdigits '+' List.mem_cons_self
  · exact hsome

namespace Command

/-! ## Arguments -/

/-- The word that asks for an action. -/
def Action.word : Action → List Char
  | lex => ['l', 'e', 'x']
  | check => ['c', 'h', 'e', 'c', 'k']

/-- One way to ask for an action with its options.  The path stands behind two dashes, so that it
may begin with a dash itself. -/
def Arguments.given (action : Action) (noImports : Bool) (width : Nat) (path : Path) :
    List (List Char) :=
  action.word :: ((if noImports then ["--no-imports".toList] else []) ++
    ["--tab-width".toList, Nat.toDigits 10 width, "--".toList, path])

/-- Whatever the path and the options are, they can be asked for. -/
theorem Request.read_given (action : Action) (noImports : Bool) (width : Nat) (path : Path) :
    Request.read 0 (Arguments.given action noImports width path) =
      some (.run 0 { action, path := some path, noImports, tabWidth := some width }) := by
  let tail := ["--tab-width".toList, Nat.toDigits 10 width, "--".toList, path]
  have hflag : Arguments.readMore false { action }
      ((if noImports then ["--no-imports".toList] else []) ++ tail) =
        Arguments.readMore false { action, noImports } tail := by
    cases noImports <;> rfl
  have htail : Arguments.readMore false { action, noImports } tail =
      some { action, path := some path, noImports, tabWidth := some width } := by
    simp [tail, Arguments.readMore, Arguments.setTabWidth, Arguments.setPath, readNat?_toDigits]
  have hmore := hflag.trans htail
  cases action with
  | lex => exact congrArg (Option.bind · _) hmore
  | check => exact congrArg (Option.bind · _) hmore

/-! ## What a run leaves behind -/

variable {tree : FileTree} {arguments : Arguments}

theorem toList_linesText (lines : List String) :
    (linesText lines).toList = unlines (lines.map String.toList) := by
  rw [linesText, String.toList_join, unlines, List.flatMap_map, List.flatMap_map]
  simp only [String.toList_append]
  rfl

/-- A listing in text form has a line for each token. -/
theorem toList_listing (tokens : List Token) :
    (listing .text tokens).toList = unlines (tokens.map Token.line) := by
  rw [listing, toList_linesText, List.map_map]
  congr 1
  exact List.map_congr_left fun token _ => String.toList_ofList

/-- The tokens that a run reads are those of the file. -/
theorem outcome_lexFile (tree : FileTree) (config : Config) (path : Path) :
    (lexFile tree config path).outcome = tokenizeFile tree config path := by
  rw [lexFile, Reported.outcome_andThen, tokenizeFile]
  congr 1
  funext source
  rw [Reported.outcome_andThen]
  show (Lexer.tokens source).bind .ok = _
  cases Lexer.tokens source <;> rfl

/-- A path without a file has no tokens. -/
theorem contains_of_tokenizeFile {config : Config} {path : Path} {tokens : List Token}
    (h : tokenizeFile tree config path = .ok tokens) : tree.contains path = true := by
  obtain ⟨source, hsource, -⟩ := exists_of_bind_eq_ok h
  unfold Source.ofFile FileTree.read at hsource
  unfold FileTree.contains
  cases hfind : tree.find path with
  | ok found => rfl
  | error reason =>
    rw [hfind] at hsource
    cases hsource

variable {path : Path} {fault : Fault} {tokens : List Token}

theorem perform_of_error (filter : LogFilter)
    (h : tokenizeFile tree arguments.config (inputPath (arguments.path.getD [])) = .error fault) :
    (perform tree filter arguments).status = 1 ∧ (perform tree filter arguments).stdout = "" := by
  unfold perform
  dsimp only
  split
  · exact ⟨rfl, rfl⟩
  · rw [outcome_lexFile, h]
    exact ⟨rfl, rfl⟩

theorem perform_of_ok (filter : LogFilter)
    (h : tokenizeFile tree arguments.config (inputPath (arguments.path.getD [])) = .ok tokens) :
    (perform tree filter arguments).status = 0 ∧
      (perform tree filter arguments).stdout =
        match arguments.action with
        | .lex => listing arguments.chosenFormat tokens
        | .check => "" := by
  unfold perform
  dsimp only
  rw [if_neg (by simp [contains_of_tokenizeFile h]), outcome_lexFile, h]
  cases arguments.action <;> exact ⟨rfl, rfl⟩

/-- Behind the arguments a run is that of the action, but for the lines about its log. -/
theorem run_of_read (tree : FileTree) (directives : Option (List Char)) {given : List (List Char)}
    {verbosity : Nat} (h : Request.read 0 given = some (.run verbosity arguments)) :
    ∃ filter, (run tree directives given).status = (perform tree filter arguments).status ∧
      (run tree directives given).stdout = (perform tree filter arguments).stdout := by
  unfold run
  rw [h]
  exact ⟨_, rfl, rfl⟩

/-- The tokens of a file are listed in lines, one after the other. -/
theorem isListedBy_of_tokenizeFile {config : Config}
    (h : tokenizeFile tree config path = .ok tokens) :
    List.Forall₂ Token.IsListedBy tokens (splitLines (unlines (tokens.map Token.line))) := by
  obtain ⟨source, hsource, htokens⟩ := exists_of_bind_eq_ok h
  obtain ⟨lexer, -, hyields, -⟩ := Stage.yields_of_collect htokens
  rw [splitLines_unlines, List.forall₂_map_right_iff]
  · exact List.forall₂_same.2 fun token _ => token.isListedBy_line
  · intro line hline
    obtain ⟨token, htoken, rfl⟩ := List.mem_map.1 hline
    exact Token.lineFeed_not_mem_line fun body hvalue =>
      Lexer.lineFeed_not_mem_names (.ofFile hsource) hyields htoken hvalue

/-- A run of `lex` in text form prints the tokens of the file, each on one line that begins with its
place and its kind, and has the status 0, or else it prints nothing and has the status 1.  It does
the first if the file is read without a fault.  A run of `check` with the same path and options has
the same status, and prints nothing. -/
theorem prints_all_or_nothing (tree : FileTree) (directives directives' : Option (List Char))
    {given given' : List (List Char)} {verbosity verbosity' : Nat} {arguments arguments' : Arguments}
    (hlex : Request.read 0 given = some (.run verbosity arguments))
    (hcheck : Request.read 0 given' = some (.run verbosity' arguments'))
    (haction : arguments.action = .lex) (hformat : arguments.chosenFormat = .text)
    (haction' : arguments'.action = .check) (hpath : arguments'.path = arguments.path)
    (hconfig : arguments'.config = arguments.config) :
    ((∃ tokens, tokenizeFile tree arguments.config (inputPath (arguments.path.getD [])) = .ok tokens ∧
          (run tree directives given).status = 0 ∧
          (run tree directives given).stdout.toList = unlines (tokens.map Token.line) ∧
          List.Forall₂ Token.IsListedBy tokens
            (splitLines (run tree directives given).stdout.toList)) ∨
        ∃ fault,
          tokenizeFile tree arguments.config (inputPath (arguments.path.getD [])) = .error fault ∧
            (run tree directives given).status = 1 ∧ (run tree directives given).stdout = "") ∧
      (run tree directives' given').status = (run tree directives given).status ∧
      (run tree directives' given').stdout = "" := by
  obtain ⟨filter, hstatus, hstdout⟩ := run_of_read tree directives hlex
  obtain ⟨filter', hstatus', hstdout'⟩ := run_of_read tree directives' hcheck
  rw [hstatus, hstdout, hstatus', hstdout']
  cases h : tokenizeFile tree arguments.config (inputPath (arguments.path.getD [])) with
  | error fault =>
    have h' := h
    rw [← hconfig, ← hpath] at h'
    obtain ⟨hone, hnothing⟩ := perform_of_error filter h
    obtain ⟨hone', hnothing'⟩ := perform_of_error filter' h'
    exact ⟨.inr ⟨fault, rfl, hone, hnothing⟩, hone'.trans hone.symm, hnothing'⟩
  | ok tokens =>
    have h' := h
    rw [← hconfig, ← hpath] at h'
    obtain ⟨hzero, hlisting⟩ := perform_of_ok filter h
    obtain ⟨hzero', hnothing'⟩ := perform_of_ok filter' h'
    rw [haction, hformat] at hlisting
    rw [haction'] at hnothing'
    have hlines :
        (perform tree filter arguments).stdout.toList = unlines (tokens.map Token.line) := by
      rw [hlisting, toList_listing]
    refine ⟨.inl ⟨tokens, rfl, hzero, hlines, ?_⟩, hzero'.trans hzero.symm, hnothing'⟩
    rw [hlines]
    exact isListedBy_of_tokenizeFile h

/-- The lines of a file with a body that has two names. -/
theorem prints_line_of_named_body :
    ∃ tree tokens, (run tree none (Arguments.given .lex false 4 ['a'])).status = 0 ∧
      tokens.map Token.kind = [.className, .body, .blockEnd, .endOfText] ∧
      List.Forall₂ Token.IsListedBy tokens
        (splitLines (run tree none (Arguments.given .lex false 4 ['a'])).stdout.toList) ∧
      (run tree none (Arguments.given .check false 4 ['a'])).status = 0 := by
  let tree : FileTree :=
    { workingDirectory := []
      entries := [([['a', '.', '3', 'l', 'm']], .text "A\n ---n, m\n  t\n ---\nend\n".toList)] }
  have hkinds : (tokenizeFile tree {} (inputPath ['a'])).map (List.map Token.kind) =
      .ok [.className, .body, .blockEnd, .endOfText] := by
    decide +kernel
  obtain ⟨tokens, htokens, hkinds⟩ := exists_of_map_eq_ok hkinds
  obtain ⟨hprints, hcheck, -⟩ := prints_all_or_nothing tree none none
    (Request.read_given .lex false 4 ['a']) (Request.read_given .check false 4 ['a'])
    rfl rfl rfl rfl rfl
  rcases hprints with ⟨tokens', htokens', hstatus, -, hlisted⟩ | ⟨fault, hfault, -⟩
  · obtain rfl := Except.ok.inj (htokens.symm.trans htokens')
    exact ⟨tree, tokens, hstatus, hkinds, hlisted, hcheck.trans hstatus⟩
  · cases htokens.symm.trans hfault

end Command

end BlockLexer
