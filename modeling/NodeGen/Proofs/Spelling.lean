/-
  NodeGen.Proofs.Spelling — command lines that say the same.

  A command line says a directory, options with values, and whether to check (`Word`). There are many ways to write
  that: in any order, each option shortened to any of its beginnings that has a letter, each value attached by an
  equals sign or apart from its option (`Spells`).

  - `consume_of_spells`: the arguments are taken in word by word, from left to right, however each word is written.
  - `foldl_say`: what the words come to. Of the directories the first one counts and the others are left over; of the
    values of one option, the last one counts.
  - `invoke_canonical`: the command does as it does for the directory, the last value of each option and the mark for
    checking, in this order. A grammar that is not named is written as an empty name.
-/

import Mathlib.Data.List.Induction
import Mathlib.Data.List.TakeWhile
import NodeGen.Command.Run

namespace NodeGen.Command

/-! ## Spelling -/

inductive Word where
  | directory (t : Text)
  | given (flag : Flag) (value : Text)
  | check
  deriving DecidableEq

namespace Flag

/-- A beginning of an option, with one letter at least. -/
def Spelled (flag : Flag) (name : Text) : Prop := name <+: flag.long ∧ 3 ≤ name.length

instance (flag : Flag) (name : Text) : Decidable (flag.Spelled name) := inferInstanceAs (Decidable (_ ∧ _))

def Takes (flag : Flag) (value : Text) : Prop :=
  match flag with
  | .grammar => True
  | .package => True
  | .lang => ∃ target, value = Target.name target
  | _ => False

end Flag

inductive Spells : List Text → List Word → Prop
  | nil : Spells [] []
  | directory {t : Text} {arguments : List Text} {words : List Word} : t.head? ≠ some '-' → Spells arguments words →
      Spells (t :: arguments) (.directory t :: words)
  | apart {flag : Flag} {name value : Text} {arguments : List Text} {words : List Word} : flag.Spelled name →
      flag.Takes value → value.head? ≠ some '-' → Spells arguments words →
      Spells (name :: value :: arguments) (.given flag value :: words)
  | attached {flag : Flag} {name value : Text} {arguments : List Text} {words : List Word} : flag.Spelled name →
      flag.Takes value → value ≠ separator → Spells arguments words →
      Spells ((name ++ '=' :: value) :: arguments) (.given flag value :: words)
  | check {name : Text} {arguments : List Text} {words : List Word} : Flag.check.Spelled name →
      Spells arguments words → Spells (name :: arguments) (.check :: words)

variable {flag : Flag} {name value t directory : Text} {arguments : List Text} {words : List Word}

/-! ## Classification -/

namespace Flag

/-- All that is to know of the beginnings of options. -/
theorem beginnings : ∀ flag ∈ Flag.all, ∀ n ∈ List.range 10, 3 ≤ n → '=' ∉ flag.long.take n ∧
    (flag.long.take n).take 2 = separator ∧ all.filter (fun f => (flag.long.take n).isPrefixOf f.long) = [flag] ∧
    (all.find? fun f => f.long = flag.long.take n).all (· = flag) = true := by decide

theorem mem_all (flag : Flag) : flag ∈ all := by cases flag <;> decide

theorem Spelled.beginning (h : flag.Spelled name) : '=' ∉ name ∧ name.take 2 = separator ∧
    all.filter (fun f => name.isPrefixOf f.long) = [flag] ∧
    (all.find? fun f => f.long = name).all (· = flag) = true := by
  have hlong : ∀ flag ∈ all, flag.long.length < 10 := by decide
  have hlength : name.length < 10 := Nat.lt_of_le_of_lt h.1.length_le (hlong flag flag.mem_all)
  have htake : name = flag.long.take name.length := List.prefix_iff_eq_take.mp h.1
  have hall := beginnings flag flag.mem_all name.length (List.mem_range.mpr hlength) h.2
  rwa [← htake] at hall

/-- A beginning of an option starts with two minus signs and goes on. -/
theorem Spelled.start (h : flag.Spelled name) : ∃ c rest, name = '-' :: '-' :: c :: rest := by
  obtain ⟨-, hstart, -⟩ := h.beginning
  have hlength := h.2
  match name with
  | [] | [_] | [_, _] => simp at hlength
  | a :: b :: c :: rest =>
    obtain ⟨rfl, hb⟩ := List.cons.inj hstart
    obtain ⟨rfl, -⟩ := List.cons.inj hb
    exact ⟨c, rest, rfl⟩

end Flag

theorem classify_of_spelled (h : flag.Spelled name) {more : Text} {value : Option Text}
    (hcut : cutValue (name ++ more) = (name, value)) : classify (name ++ more) = .ok (.option flag value) := by
  obtain ⟨-, -, hfilter, hfind⟩ := h.beginning
  obtain ⟨c, rest, hname⟩ := h.start
  have hdashed : (name ++ more).head? = some '-' ∧ name ++ more ≠ ['-'] := by simp [hname]
  have hnot : name ++ more ≠ shortHelp ∧ name ≠ shortHelp := by simp [hname, shortHelp]
  have hprefix : separator.isPrefixOf (name ++ more) = true := by
    rw [hname]
    rfl
  simp only [classify, if_pos hdashed, classifyDashed, hcut]
  cases hexact : Flag.all.find? fun f => f.long = name with
  | some f =>
    rw [hexact] at hfind
    obtain rfl : f = flag := by simpa using hfind
    rfl
  | none => simp only [if_neg hnot.1, if_neg hnot.2, hprefix, if_true, hfilter]

theorem cutValue_append (h : '=' ∉ name) (value : Text) : cutValue (name ++ '=' :: value) = (name, some value) := by
  have hname : ∀ c ∈ name, decide (c ≠ '=') = true := fun c hc => decide_eq_true (ne_of_mem_of_not_mem hc h)
  rw [cutValue, List.dropWhile_append_of_pos hname, List.takeWhile_append_of_pos hname]
  simp

theorem cutValue_none (h : '=' ∉ name) : cutValue name = (name, none) := by
  have hname : name.dropWhile (· ≠ '=') = [] :=
    List.dropWhile_eq_nil_iff.mpr fun c hc => decide_eq_true (ne_of_mem_of_not_mem hc h)
  rw [cutValue, hname]

theorem classify_spelled (h : flag.Spelled name) : classify name = .ok (.option flag none) := by
  have hcut : cutValue (name ++ []) = (name, none) := by
    rw [List.append_nil]
    exact cutValue_none h.beginning.1
  have hclass := classify_of_spelled h hcut
  rwa [List.append_nil] at hclass

theorem classify_attached (h : flag.Spelled name) (value : Text) :
    classify (name ++ '=' :: value) = .ok (.option flag (some value)) :=
  classify_of_spelled h (cutValue_append h.beginning.1 value)

theorem classify_plain (h : t.head? ≠ some '-') : classify t = .ok (.operand t) :=
  if_neg fun hdash => h hdash.1

theorem ne_separator_of_head (h : t.head? ≠ some '-') : t ≠ separator := by
  rintro rfl
  exact h rfl

theorem Flag.Spelled.ne_separator (h : flag.Spelled name) (more : Text) : name ++ more ≠ separator := by
  obtain ⟨c, rest, rfl⟩ := h.start
  intro he
  exact absurd (congrArg List.length he) (by simp [separator])

theorem tokens_cons {token : Token} {ts : List Token} (hne : t ≠ separator) (ht : classify t = .ok token)
    (hrest : tokens arguments = .ok ts) : tokens (t :: arguments) = .ok (token :: ts) := by
  rw [tokens, if_neg hne, ht, hrest]
  rfl

/-! ## Consumption -/

def Word.say (p : Progress) : Word → Progress
  | .directory t =>
    match p.directory with
    | none => { p with directory := some t }
    | some _ => { p with extras := p.extras ++ [t] }
  | .given .grammar value => { p with grammar := value }
  | .given .lang value => { p with target := Target.ofName? value }
  | .given .package value => { p with package := value }
  | .given _ _ => p
  | .check => { p with check := true }

theorem assign_of_takes (h : flag.Takes value) (hvalue : value ≠ separator) (p : Progress) :
    assign p flag value = .ok (Word.say p (.given flag value)) := by
  cases flag with
  | grammar => simp only [assign, if_neg hvalue, Word.say]
  | package => simp only [assign, if_neg hvalue, Word.say]
  | lang =>
    obtain ⟨target, rfl⟩ := h
    simp only [assign, if_neg hvalue, Word.say, Target.ofName?_name]
  | help => exact h.elim
  | check => exact h.elim

theorem consume_operand (p : Progress) {ts : List Token} (h : .separator ∉ ts) :
    consume p (.operand t :: ts) = consume (Word.say p (.directory t)) ts := by
  cases hdirectory : p.directory with
  | some d =>
    rw [consume.eq_def]
    simp only [hdirectory, Word.say]
  | none =>
    have hnext : ∀ rest, ts ≠ .separator :: rest := by
      rintro rest rfl
      exact h List.mem_cons_self
    rw [consume.eq_def]
    simp only [hdirectory, Word.say]

theorem consume_apart (h : flag.Takes value) (p : Progress) (ts : List Token) :
    consume p (.option flag none :: .operand value :: ts) = assign p flag value >>= fun p => consume p ts := by
  have hhelp : flag ≠ .help := by
    rintro rfl
    exact h
  have hcheck : flag ≠ .check := by
    rintro rfl
    exact h
  rw [consume]
  · exact hhelp
  · exact hcheck

/-- The arguments are taken in word by word. -/
theorem consume_of_spells (h : Spells arguments words) :
    ∃ ts, tokens arguments = .ok ts ∧ .separator ∉ ts ∧ ∀ p, consume p ts = .ok (words.foldl Word.say p) := by
  induction h with
  | nil => exact ⟨[], rfl, by simp, fun p => rfl⟩
  | @directory t arguments words ht _ ih =>
    obtain ⟨ts, htokens, hno, hconsume⟩ := ih
    refine ⟨.operand t :: ts, tokens_cons (ne_separator_of_head ht) (classify_plain ht) htokens, by simpa using hno, ?_⟩
    intro p
    rw [consume_operand p hno, hconsume]
    rfl
  | @apart flag name value arguments words hname htakes hvalue _ ih =>
    obtain ⟨ts, htokens, hno, hconsume⟩ := ih
    have hrest := tokens_cons (ne_separator_of_head hvalue) (classify_plain hvalue) htokens
    have hne : name ≠ separator := by simpa using hname.ne_separator []
    refine ⟨_, tokens_cons hne (classify_spelled hname) hrest, by simpa using hno, fun p => ?_⟩
    rw [consume_apart htakes, assign_of_takes htakes (ne_separator_of_head hvalue)]
    exact hconsume _
  | @attached flag name value arguments words hname htakes hvalue _ ih =>
    obtain ⟨ts, htokens, hno, hconsume⟩ := ih
    refine ⟨_, tokens_cons (hname.ne_separator _) (classify_attached hname value) htokens, by simpa using hno,
      fun p => ?_⟩
    rw [consume, assign_of_takes htakes hvalue]
    exact hconsume _
  | @check name arguments words hname _ ih =>
    obtain ⟨ts, htokens, hno, hconsume⟩ := ih
    have hne : name ≠ separator := by simpa using hname.ne_separator []
    refine ⟨_, tokens_cons hne (classify_spelled hname) htokens, by simpa using hno, fun p => ?_⟩
    rw [consume]
    exact hconsume _

/-! ## What the words come to -/

def Word.directory? : Word → Option Text
  | .directory t => some t
  | _ => none

def Word.value? (flag : Flag) : Word → Option Text
  | .given f value => if f = flag then some value else none
  | _ => none

def directories (words : List Word) : List Text := words.filterMap Word.directory?

def lastValue (flag : Flag) (default : Text) (words : List Word) : Text :=
  (words.filterMap (Word.value? flag)).getLastD default

def said (words : List Word) : Progress where
  directory := (directories words).head?
  grammar := lastValue .grammar [] words
  target := Target.ofName? (lastValue .lang Target.java.name words)
  package := lastValue .package "lox".toList words
  check := decide (.check ∈ words)
  extras := (directories words).tail

theorem directories_snoc (words : List Word) (word : Word) :
    directories (words ++ [word]) = directories words ++ word.directory?.toList := by
  rw [directories, List.filterMap_append, directories]
  cases word <;> rfl

theorem lastValue_snoc (flag : Flag) (default : Text) (words : List Word) (word : Word) :
    lastValue flag default (words ++ [word]) = (word.value? flag).getD (lastValue flag default words) := by
  rw [lastValue, List.filterMap_append]
  cases hvalue : word.value? flag with
  | none =>
    rw [List.filterMap_cons_none hvalue, List.filterMap_nil, List.append_nil]
    rfl
  | some value =>
    rw [List.filterMap_cons_some hvalue, List.filterMap_nil, List.getLastD_concat]
    rfl

/-- A word more, be it said or added to the words. -/
theorem say_said (words : List Word) (word : Word) : Word.say (said words) word = said (words ++ [word]) := by
  simp only [said, directories_snoc, lastValue_snoc]
  cases word with
  | directory t =>
    cases hdirectories : directories words <;> simp [Word.say, Word.directory?, Word.value?]
  | given flag value => cases flag <;> simp [Word.say, Word.directory?, Word.value?]
  | check => simp [Word.say, Word.directory?, Word.value?]

theorem foldl_say (words : List Word) : words.foldl Word.say .initial = said words := by
  induction words using List.reverseRecOn with
  | nil => rfl
  | append_singleton words word ih => rw [List.foldl_append, ih, List.foldl_cons, List.foldl_nil, say_said]

def asked (directory : Text) (words : List Word) : Settings where
  directory := directory
  grammar := (said words).grammar
  target := (said words).target
  package := (said words).package
  check := (said words).check

theorem parse_of_spells (h : Spells arguments words) (hdirectory : directories words = [directory]) :
    parse arguments = .ok (asked directory words) := by
  obtain ⟨ts, htokens, -, hconsume⟩ := consume_of_spells h
  have hfinish : finish (said words) = .ok (asked directory words) := by
    have hhead : (said words).directory = some directory := congrArg List.head? hdirectory
    have hextras : (said words).extras = [] := congrArg List.tail hdirectory
    simp only [finish, hhead, hextras, asked]
  simp only [parse, htokens, hconsume, foldl_say]
  exact hfinish

/-! ## The canonical command line -/

def Word.text : Word → Text
  | .directory t => t
  | .given flag value => flag.long ++ '=' :: value
  | .check => Flag.check.long

/-- The directory, the last value of each option, and at the end whether to check. -/
def digest (directory : Text) (words : List Word) : List Word :=
  [.directory directory, .given .grammar (lastValue .grammar [] words),
    .given .lang (lastValue .lang Target.java.name words), .given .package (lastValue .package "lox".toList words)] ++
    if .check ∈ words then [.check] else []

def canonical (directory : Text) (words : List Word) : List Text := (digest directory words).map Word.text

def Word.Sayable : Word → Prop
  | .directory t => t.head? ≠ some '-'
  | .given flag value => flag.Takes value ∧ value ≠ separator
  | .check => True

theorem Spells.sayable (h : Spells arguments words) : ∀ word ∈ words, word.Sayable := by
  induction h with
  | nil => simp
  | directory ht _ ih => exact List.forall_mem_cons.mpr ⟨ht, ih⟩
  | apart _ htakes hvalue _ ih => exact List.forall_mem_cons.mpr ⟨⟨htakes, ne_separator_of_head hvalue⟩, ih⟩
  | attached _ htakes hvalue _ ih => exact List.forall_mem_cons.mpr ⟨⟨htakes, hvalue⟩, ih⟩
  | check _ _ ih => exact List.forall_mem_cons.mpr ⟨trivial, ih⟩

theorem Flag.spelled_long (flag : Flag) : flag.Spelled flag.long :=
  ⟨List.prefix_refl _, by cases flag <;> decide⟩

theorem spells_text (h : ∀ word ∈ words, word.Sayable) : Spells (words.map Word.text) words := by
  induction words with
  | nil => exact .nil
  | cons word words ih =>
    obtain ⟨hword, hwords⟩ := List.forall_mem_cons.mp h
    cases word with
    | directory t => exact .directory hword (ih hwords)
    | given flag value => exact .attached flag.spelled_long hword.1 hword.2 (ih hwords)
    | check => exact .check Flag.check.spelled_long (ih hwords)

theorem lastValue_mem (flag : Flag) (default : Text) (words : List Word) :
    lastValue flag default words = default ∨ .given flag (lastValue flag default words) ∈ words := by
  cases hlast : (words.filterMap (Word.value? flag)).getLast? with
  | none => exact Or.inl (by rw [lastValue, List.getLastD_eq_getLast?, hlast]; rfl)
  | some value =>
    obtain ⟨word, hword, hvalue⟩ := List.mem_filterMap.mp (List.mem_of_getLast? hlast)
    have hlastValue : lastValue flag default words = value := by
      rw [lastValue, List.getLastD_eq_getLast?, hlast]
      rfl
    rw [hlastValue]
    unfold Word.value? at hvalue
    split at hvalue
    · split at hvalue
      · rename_i hflag
        cases hvalue
        exact Or.inr (hflag ▸ hword)
      · cases hvalue
    · cases hvalue

/-- The last value can be said if the default can. -/
theorem sayable_lastValue (h : ∀ word ∈ words, word.Sayable) {flag : Flag} {default : Text}
    (hdefault : Word.Sayable (.given flag default)) : Word.Sayable (.given flag (lastValue flag default words)) := by
  rcases lastValue_mem flag default words with he | hmem
  · rw [he]
    exact hdefault
  · exact h _ hmem

theorem sayable_digest (h : ∀ word ∈ words, word.Sayable) (hdirectory : directory.head? ≠ some '-') :
    ∀ word ∈ digest directory words, word.Sayable := by
  have hgrammar : Word.Sayable (.given .grammar []) := ⟨trivial, by decide⟩
  have hlang : Word.Sayable (.given .lang Target.java.name) := ⟨⟨.java, rfl⟩, by decide⟩
  have hpackage : Word.Sayable (.given .package "lox".toList) := ⟨trivial, by decide⟩
  have hcheck : ∀ word ∈ if Word.check ∈ words then [Word.check] else [], word.Sayable := by
    split <;> simp [Word.Sayable]
  rw [digest, List.forall_mem_append]
  refine ⟨?_, hcheck⟩
  simp only [List.forall_mem_cons, List.not_mem_nil, false_implies, implies_true, and_true]
  exact ⟨hdirectory, sayable_lastValue h hgrammar, sayable_lastValue h hlang, sayable_lastValue h hpackage⟩

/-- The digest of words asks for what the words ask for. -/
theorem asked_digest (directory : Text) (words : List Word) :
    asked directory (digest directory words) = asked directory words := by
  obtain ⟨hgrammar, hlang, hpackage⟩ :
      lastValue .grammar [] (digest directory words) = lastValue .grammar [] words ∧
      lastValue .lang Target.java.name (digest directory words) = lastValue .lang Target.java.name words ∧
      lastValue .package "lox".toList (digest directory words) = lastValue .package "lox".toList words := by
    unfold digest
    split <;> exact ⟨rfl, rfl, rfl⟩
  have hcheck : Word.check ∈ digest directory words ↔ Word.check ∈ words := by
    unfold digest
    split <;> simp [*]
  simp only [asked, said, hgrammar, hlang, hpackage, hcheck]

theorem directories_digest (directory : Text) (words : List Word) :
    directories (digest directory words) = [directory] := by
  unfold digest
  split <;> rfl

/-- Words that are said in any way, with one directory among them, do what the canonical command line does. -/
theorem invoke_canonical (h : Spells arguments words) (hdirectory : directories words = [directory]) :
    parse arguments = .ok (asked directory words) ∧ invoke arguments = invoke (canonical directory words) := by
  have hhead : directory.head? ≠ some '-' := by
    have hmem : directory ∈ directories words := hdirectory ▸ List.mem_cons_self
    obtain ⟨word, hword, hsaid⟩ := List.mem_filterMap.mp hmem
    cases word with
    | directory t =>
      cases hsaid
      exact h.sayable _ hword
    | given => cases hsaid
    | check => cases hsaid
  have hparse := parse_of_spells h hdirectory
  have hcanonical := parse_of_spells (spells_text (sayable_digest h.sayable hhead)) (directories_digest directory words)
  rw [asked_digest] at hcanonical
  refine ⟨hparse, ?_⟩
  rw [invoke, invoke, hparse, canonical, hcanonical]

theorem invoke_canonical_mixed : invoke ["--l".toList, "python".toList, "out".toList, "--check".toList,
      "--grammar=a".toList, "--gr".toList, [], "--pack=-x".toList] =
    invoke ["out".toList, "--grammar=".toList, "--lang=python".toList, "--package=-x".toList, "--check".toList] := by
  have hspells : Spells ["--l".toList, "python".toList, "out".toList, "--check".toList, "--grammar=a".toList,
      "--gr".toList, [], "--pack=-x".toList] [.given .lang "python".toList, .directory "out".toList, .check,
      .given .grammar ['a'], .given .grammar [], .given .package "-x".toList] :=
    .apart (by decide) ⟨.python, rfl⟩ (by decide) <| .directory (by decide) <| .check (by decide) <|
      @Spells.attached .grammar "--grammar".toList ['a'] _ _ (by decide) trivial (by decide) <|
      .apart (by decide) trivial (by decide) <|
      @Spells.attached .package "--pack".toList "-x".toList _ _ (by decide) trivial (by decide) .nil
  exact (invoke_canonical hspells rfl).2

end NodeGen.Command
