import Marginalia.Replay.Arguments
import Mathlib

/-!
# Replay — how a command line is read

Behind what has to be given a command line has choices: switches, and
lines to hide. A line takes two texts: whatever stands behind `--hide`
belongs to it, even if it is written like a switch (`Chooses`). Options are
read as far as they are choices. Either they all are, or the first that is
not decides what is complained about (`chooses_or_offends`).

The lines are hidden in their order. A switch counts if it is among the
choices, wherever it stands and however often (`chosen`). So a command line
is read by its grammar (`Arguments.read_by_grammar`).
-/

namespace Marginalia.Command

theorem ofName?_name (c : Command) : ofName? c.name = .ok c := by cases c <;> rfl

theorem ofName?_of_forall_ne {name : String} (h : ∀ c : Command, name ≠ c.name) :
    ofName? name = .error ⟨name⟩ := by
  have hnone : all.find? (fun c => c.name = name) = none := by simpa using fun c _ => (h c).symm
  rw [ofName?, hnone]

end Marginalia.Command

namespace Marginalia.Replay

variable {options rest front : List String} {option text : String} {line n : Nat}
variable {a : Arguments} {e : Complaint} {s : Switch}

/-! ## The numbers of lines -/

/-- **A count as it is written**: digits, with at most a plus before
them. -/
structure SpellsCount (text : List Char) (n : Nat) : Prop where
  digits : ∃ ds : List Char, (text = ds ∨ text = '+' :: ds) ∧ ds ≠ [] ∧
    (∀ c ∈ ds, c.isDigit = true) ∧ Nat.ofDigitChars 10 ds 0 = n

/-- **A text that names a line**: its number from one, which is a machine
word, while the line itself is counted from zero. -/
structure NamesLine (text : String) (line : Nat) : Prop where
  spells : SpellsCount text.toList (line + 1)
  lt : line + 1 < wordBound

/-- A plus is taken off, and no digit is. -/
theorem spellsCount_iff {cs : List Char} : SpellsCount cs n ↔
    Number.unsigned cs ≠ [] ∧ (∀ c ∈ Number.unsigned cs, c.isDigit = true) ∧
      Nat.ofDigitChars 10 (Number.unsigned cs) 0 = n := by
  constructor
  · rintro ⟨ds, rfl | rfl, hne, hdigits, hvalue⟩
    · have hunsigned : Number.unsigned cs = cs := by
        unfold Number.unsigned
        split
        · exact absurd (hdigits '+' List.mem_cons_self) (by decide)
        · rfl
      rw [hunsigned]
      exact ⟨hne, hdigits, hvalue⟩
    · exact ⟨hne, hdigits, hvalue⟩
  · intro h
    refine ⟨Number.unsigned cs, ?_, h⟩
    unfold Number.unsigned
    split
    · exact .inr rfl
    · exact .inl rfl

theorem readCount?_eq_some_iff {bound : Nat} {cs : List Char} :
    Number.readCount? bound cs = some n ↔ SpellsCount cs n ∧ n < bound := by
  rw [spellsCount_iff, Number.readCount?]
  simp only [Option.ite_none_right_eq_some, Bool.and_eq_true, Bool.not_eq_true',
    List.isEmpty_eq_false_iff, List.all_eq_true, Option.some.injEq]
  constructor
  · rintro ⟨⟨hne, hdigits⟩, hlt, rfl⟩
    exact ⟨⟨hne, hdigits, rfl⟩, hlt⟩
  · rintro ⟨⟨hne, hdigits, rfl⟩, hlt⟩
    exact ⟨⟨hne, hdigits⟩, hlt, rfl⟩

/-- **The texts that name lines are read**, and no others. -/
theorem readLine?_eq_some_iff : readLine? text = some line ↔ NamesLine text line := by
  have hcount : readLine? text = some line ↔
      Number.readCount? wordBound text.toList = some (line + 1) := by
    rw [readLine?]
    split
    · rename_i k hk
      rw [hk]
      simp
    · rename_i hnone
      exact iff_of_false nofun fun h => hnone line h
  rw [hcount, readCount?_eq_some_iff]
  exact ⟨fun h => ⟨h.1, h.2⟩, fun h => ⟨h.spells, h.lt⟩⟩

/-! ## Choices -/

/-- How a switch is written. -/
inductive Written : Switch → String → Prop
  | all : Written .all "--all"
  | noBoundaries : Written .noBoundaries "--no-boundaries"
  | noStepper : Written .noStepper "--no-stepper"
  | shouldFail : Written .shouldFail "--should-fail"

/-- An option that was understood. -/
inductive Choice where
  | switch (s : Switch)
  /-- A line to hide, counted from zero. -/
  | hide (line : Nat)
deriving DecidableEq, Repr

/-- The line that is to be hidden. -/
def Choice.line? : Choice → Option Nat
  | switch _ => none
  | hide line => some line

/-- **Options that are choices**, from the left to the right. -/
inductive Chooses : List String → List Choice → Prop
  | nil : Chooses [] []
  | switch {option : String} {s : Switch} {rest : List String} {choices : List Choice} :
      Written s option → Chooses rest choices → Chooses (option :: rest) (.switch s :: choices)
  | hide {text : String} {line : Nat} {rest : List String} {choices : List Choice} :
      NamesLine text line → Chooses rest choices →
      Chooses ("--hide" :: text :: rest) (.hide line :: choices)

/-- **Options of which the first is no choice**, and what is complained
about. -/
inductive Offends : List String → Complaint → Prop
  /-- It is nothing that is known. -/
  | unknown {option : String} {rest : List String} :
      option ≠ "--hide" → (∀ s, ¬ Written s option) →
      Offends (option :: rest) (.unknownOption option)
  /-- What follows names no line. -/
  | badLine {text : String} {rest : List String} :
      (∀ line, ¬ NamesLine text line) → Offends ("--hide" :: text :: rest) (.badLine text)
  /-- Nothing follows. -/
  | trailing : Offends ["--hide"] .usage

/-- **What is chosen**: the lines in their order, and each switch by
whether it is among the choices. -/
def chosen (command : Command) (source reply : String) (choices : List Choice) : Arguments where
  command
  source
  reply
  hidden := choices.filterMap Choice.line?
  view :=
    { coverage := if .switch .all ∈ choices then .all else .changes
      showsUses := decide (.switch .noBoundaries ∉ choices)
      showsStatements := decide (.switch .noStepper ∉ choices)
      shouldFail := decide (.switch .shouldFail ∈ choices) }
  shouldFault := decide (.switch .shouldFail ∈ choices)

theorem Written.ne_hide (h : Written s option) : option ≠ "--hide" := by
  cases h <;> decide

theorem ofText?_eq_some_iff : Switch.ofText? option = some s ↔ Written s option := by
  constructor
  · intro h
    obtain rfl : s.text = option := by simpa using List.find?_some h
    cases s <;> constructor
  · intro h
    cases h <;> decide

theorem ofText?_eq_none_iff : Switch.ofText? option = none ↔ ∀ s, ¬ Written s option := by
  rw [Option.eq_none_iff_forall_ne_some]
  exact forall_congr' fun s => not_congr ofText?_eq_some_iff

namespace Arguments

/-! ## Options, one by one -/

/-- What a choice adds. -/
def take (a : Arguments) : Choice → Arguments
  | .switch s => a.set s
  | .hide line => a.hide line

theorem readOptions_switch (h : Written s option) (a : Arguments) (rest : List String) :
    a.readOptions (option :: rest) = (a.set s).readOptions rest := by
  rw [readOptions.eq_def]
  simp only [hideOption, if_neg h.ne_hide, ofText?_eq_some_iff.mpr h]

theorem readOptions_hide (h : NamesLine text line) (a : Arguments) (rest : List String) :
    a.readOptions ("--hide" :: text :: rest) = (a.hide line).readOptions rest := by
  simp only [readOptions, hideOption, if_true, readLine?_eq_some_iff.mpr h]

theorem readOptions_of_offends (h : Offends options e) (a : Arguments) :
    a.readOptions options = .error e := by
  cases h with
  | unknown hne hnone =>
    rw [readOptions.eq_def]
    simp only [hideOption, if_neg hne, ofText?_eq_none_iff.mpr hnone]
  | @badLine text _ hnone =>
    have hread : readLine? text = none :=
      Option.eq_none_iff_forall_ne_some.mpr fun line h =>
        hnone line (readLine?_eq_some_iff.mp h)
    simp only [readOptions, hideOption, if_true, hread]
  | trailing => simp only [readOptions, hideOption, if_true]

/-- **Choices are taken one after the other.** -/
theorem readOptions_append {choices : List Choice} (h : Chooses front choices) (a : Arguments)
    (rest : List String) :
    a.readOptions (front ++ rest) = (choices.foldl take a).readOptions rest := by
  induction h generalizing a with
  | nil => rfl
  | switch hwritten _ ih =>
    rw [List.cons_append, readOptions_switch hwritten, ih, List.foldl_cons, take]
  | hide hnames _ ih =>
    rw [List.cons_append, List.cons_append, readOptions_hide hnames, ih, List.foldl_cons, take]

/-- All that was chosen tells what is asked for. -/
theorem foldl_take (command : Command) (source reply : String) (choices : List Choice) :
    choices.foldl take (plain command source reply) = chosen command source reply choices := by
  induction choices using List.reverseRecOn with
  | nil => rfl
  | append_singleton choices choice ih =>
    rw [List.foldl_append, ih, List.foldl_cons, List.foldl_nil]
    cases choice with
    | hide line => simp [take, hide, chosen, Choice.line?]
    | switch s => cases s <;> simp [take, set, chosen, Choice.line?]

end Arguments

open Arguments (readOptions take)

/-! ## Options, all together -/

/-- **Options are choices, or there is a first that is none.** -/
theorem chooses_or_offends (options : List String) :
    (∃ choices, Chooses options choices) ∨
      ∃ front rest choices e, options = front ++ rest ∧ Chooses front choices ∧
        Offends rest e := by
  -- the induction is on how many texts there are, as a choice takes one or two
  induction hn : options.length using Nat.strong_induction_on generalizing options with
  | _ n ih =>
    subst hn
    -- a choice in front of options of either kind leaves them of that kind
    have hcons (first : List String) {rest : List String} {choice : Choice}
        (hsplit : options = first ++ rest) (hshorter : rest.length < options.length)
        (hfirst : ∀ {more choices}, Chooses more choices →
          Chooses (first ++ more) (choice :: choices)) :
        (∃ choices, Chooses options choices) ∨
          ∃ front rest choices e, options = front ++ rest ∧ Chooses front choices ∧
            Offends rest e := by
      subst hsplit
      rcases ih rest.length hshorter rest rfl with
        ⟨choices, h⟩ | ⟨front, rest, choices, e, rfl, h, he⟩
      · exact .inl ⟨_, hfirst h⟩
      · exact .inr ⟨_, rest, _, e, (List.append_assoc ..).symm, hfirst h, he⟩
    cases options with
    | nil => exact .inl ⟨[], .nil⟩
    | cons option rest =>
      by_cases hhide : option = "--hide"
      · subst hhide
        cases rest with
        | nil => exact .inr ⟨[], _, [], _, rfl, .nil, .trailing⟩
        | cons text rest =>
          by_cases hnames : ∃ line, NamesLine text line
          · obtain ⟨line, hnames⟩ := hnames
            exact hcons ["--hide", text] rfl (by simp) (.hide hnames)
          · exact .inr ⟨[], _, [], _, rfl, .nil, .badLine (not_exists.mp hnames)⟩
      · by_cases hwritten : ∃ s, Written s option
        · obtain ⟨s, hwritten⟩ := hwritten
          exact hcons [option] rfl (by simp) (.switch hwritten)
        · exact .inr ⟨[], _, [], _, rfl, .nil, .unknown hhide (not_exists.mp hwritten)⟩

/-! ## Command lines -/

/-- **What is complained about**, in order of precedence: that too little
is given, the command, the first option that is no choice. -/
inductive Complains : List String → Complaint → Prop
  | tooFew {arguments : List String} : arguments.length < 3 → Complains arguments .usage
  | command {name source reply : String} {options : List String} :
      (∀ c : Command, name ≠ c.name) →
      Complains (name :: source :: reply :: options) (.unknownCommand ⟨name⟩)
  | option {c : Command} {source reply : String} {front rest : List String}
      {choices : List Choice} {e : Complaint} :
      Chooses front choices → Offends rest e →
      Complains (c.name :: source :: reply :: (front ++ rest)) e

/-- **A command line is read by its grammar.** -/
structure ReadByGrammar : Prop where
  /-- What is understood is a command, two paths and choices. -/
  understood_iff : ∀ (arguments : List String) (a : Arguments),
    Arguments.ofList arguments = .ok a ↔
      ∃ (c : Command) (source reply : String) (options : List String) (choices : List Choice),
        arguments = c.name :: source :: reply :: options ∧ Chooses options choices ∧
          a = chosen c source reply choices
  /-- Of everything else the first thing wrong is complained about. -/
  refused_iff : ∀ (arguments : List String) (e : Complaint),
    Arguments.ofList arguments = .error e ↔ Complains arguments e
  /-- The order of the lines matters, and nothing else about the order of
  choices or how often a switch is among them. -/
  alike : ∀ {options options' : List String} {choices choices' : List Choice},
    Chooses options choices → Chooses options' choices' →
    choices.filterMap Choice.line? = choices'.filterMap Choice.line? →
    (∀ s, Choice.switch s ∈ choices ↔ Choice.switch s ∈ choices') →
    ∀ name source reply : String,
      Arguments.ofList (name :: source :: reply :: options) =
        Arguments.ofList (name :: source :: reply :: options')

theorem ofList_of_chooses {choices : List Choice} (h : Chooses options choices) (c : Command)
    (source reply : String) :
    Arguments.ofList (c.name :: source :: reply :: options) =
      .ok (chosen c source reply choices) := by
  rw [Arguments.ofList, Command.ofName?_name]
  have hall := Arguments.readOptions_append h (.plain c source reply) []
  rw [List.append_nil, Arguments.foldl_take] at hall
  exact hall.trans rfl

theorem ofList_of_forall_ne {name : String} (h : ∀ c : Command, name ≠ c.name)
    (source reply : String) (options : List String) :
    Arguments.ofList (name :: source :: reply :: options) = .error (.unknownCommand ⟨name⟩) := by
  rw [Arguments.ofList, Command.ofName?_of_forall_ne h]

theorem ofList_of_complains {arguments : List String} (h : Complains arguments e) :
    Arguments.ofList arguments = .error e := by
  cases h with
  | tooFew hlt =>
    rw [Arguments.ofList]
    rintro name source reply options rfl
    simp at hlt
    omega
  | command hne => exact ofList_of_forall_ne hne ..
  | option h he =>
    rw [Arguments.ofList, Command.ofName?_name]
    exact (Arguments.readOptions_append h ..).trans (Arguments.readOptions_of_offends he _)

/-- Command lines are of these two kinds. -/
theorem chooses_or_complains (arguments : List String) :
    (∃ (c : Command) (source reply : String) (options : List String) (choices : List Choice),
      arguments = c.name :: source :: reply :: options ∧ Chooses options choices) ∨
      ∃ e, Complains arguments e := by
  match arguments with
  | [] | [_] | [_, _] => exact .inr ⟨_, .tooFew (by simp)⟩
  | name :: source :: reply :: options =>
    by_cases hname : ∃ c : Command, name = c.name
    · obtain ⟨c, rfl⟩ := hname
      rcases chooses_or_offends options with ⟨choices, h⟩ | ⟨front, rest, choices, e, rfl, h, he⟩
      · exact .inl ⟨c, source, reply, options, choices, rfl, h⟩
      · exact .inr ⟨e, .option h he⟩
    · exact .inr ⟨_, .command (not_exists.mp hname)⟩

/-- Nothing in what is chosen tells choices with the same lines and the
same switches apart. -/
theorem chosen_congr {choices choices' : List Choice}
    (hlines : choices.filterMap Choice.line? = choices'.filterMap Choice.line?)
    (hswitches : ∀ s, Choice.switch s ∈ choices ↔ Choice.switch s ∈ choices')
    (c : Command) (source reply : String) :
    chosen c source reply choices = chosen c source reply choices' := by
  simp only [chosen, hlines, hswitches]

theorem Arguments.read_by_grammar : ReadByGrammar where
  understood_iff arguments a := by
    constructor
    · intro hok
      rcases chooses_or_complains arguments with
        ⟨c, source, reply, options, choices, rfl, h⟩ | ⟨e, h⟩
      · rw [ofList_of_chooses h] at hok
        exact ⟨c, source, reply, options, choices, rfl, h, (Except.ok.inj hok).symm⟩
      · rw [ofList_of_complains h] at hok
        cases hok
    · rintro ⟨c, source, reply, options, choices, rfl, h, rfl⟩
      exact ofList_of_chooses h ..
  refused_iff arguments e := by
    refine ⟨fun herror => ?_, ofList_of_complains⟩
    rcases chooses_or_complains arguments with
      ⟨c, source, reply, options, choices, rfl, h⟩ | ⟨e', h⟩
    · rw [ofList_of_chooses h] at herror
      cases herror
    · obtain rfl : e' = e := Except.error.inj ((ofList_of_complains h).symm.trans herror)
      exact h
  alike h h' hlines hswitches name source reply := by
    by_cases hname : ∃ c : Command, name = c.name
    · obtain ⟨c, rfl⟩ := hname
      rw [ofList_of_chooses h, ofList_of_chooses h', chosen_congr hlines hswitches]
    · rw [ofList_of_forall_ne (not_exists.mp hname), ofList_of_forall_ne (not_exists.mp hname)]

-- what stands behind `--hide` is no switch, even if it is written like one
example : Arguments.ofList ["boundaries", "a.rs", "r.json", "--hide", "--all"] =
    .error (.badLine "--all") := by decide

end Marginalia.Replay
