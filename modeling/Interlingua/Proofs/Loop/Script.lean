import Interlingua.Language.Basic

/-!
# Scripts

Programs made of calls, choices and loops, as they are read off indented lines.

* `Call` — a call as it is written; what it does is opaque, and an oracle answers it.
* `Act` — what a program does: it makes calls and starts rounds of loops, and ends in some way.
* `Step` — a statement of a script; `Step.runAll` is what a script does.
-/

namespace Interlingua

namespace Script

/-- Words that are no names. -/
def reserved : List String :=
  ["False", "None", "True", "and", "as", "assert", "async", "await", "break", "class", "continue",
    "def", "del", "elif", "else", "except", "finally", "for", "from", "global", "if", "import",
    "in", "is", "lambda", "nonlocal", "not", "or", "pass", "raise", "return", "try", "while",
    "with", "yield"]

/-- Whether a character ends the word before it. -/
def endsWord (c : Char) : Bool := c == ' ' || c == '(' || c == ':'

/-- The word that a text starts with. -/
def word (text : List Char) : String := String.ofList (text.takeWhile fun c => !endsWord c)

/-- What follows the word that a text starts with. -/
def afterWord (text : List Char) : List Char := text.dropWhile fun c => !endsWord c

/-- Whether a text is a name, with dots between its parts. -/
def isName (text : String) : Bool :=
  (text.toList.splitOn '.').all fun part => Language.isIdentifier (String.ofList part)

/-- Whether a text is a name and arguments in parentheses, on one line. -/
def isCall (text : List Char) : Bool :=
  isName (word text) && !reserved.contains (word text) &&
    (afterWord text).head? == some '(' && text.getLast? == some ')' && !text.contains '\n'

end Script

/-- A call as it is written. -/
structure Call where
  text : String
  isCall : Script.isCall text.toList = true
  deriving DecidableEq

/-! ## What programs do -/

/-- How far a run has come: the calls that were made, the last one first, and the number of rounds
of loops that may still be started. -/
structure Course where
  calls : List Call
  rounds : Nat

/-- How a program ends. -/
inductive Ending where
  | done
  /-- The loop around it is left. -/
  | leave
  /-- The next round of the loop around it is started. -/
  | next
  /-- With the answer to the call whose value is returned. -/
  | returned (answer : Option Bool)
  /-- No more rounds may be started. -/
  | spent
  deriving DecidableEq, Repr

/-- Answers a call, given the calls before it. -/
abbrev Oracle := List Call → Bool

/-- What a program does. -/
abbrev Act := Course → Ending × Course

namespace Act

/-- Ends at once. -/
def ends (ending : Ending) : Act := fun course => (ending, course)

/-- Makes a call and goes on with the answer. -/
def ask (oracle : Oracle) (call : Call) (next : Bool → Act) : Act := fun course =>
  let calls := call :: course.calls
  next (oracle calls) { course with calls := calls }

/-- Makes a call if there is one. -/
def askIf (oracle : Oracle) (call : Option Call) : Act :=
  match call with
  | none => ends .done
  | some call => ask oracle call fun _ => ends .done

/-- Goes on where the first act is done. -/
def andThen (first second : Act) : Act := fun course =>
  match first course with
  | (.done, course) => second course
  | other => other

/-- The start of the next round counts as the end of this one. -/
def settle : Ending × Course → Ending × Course
  | (.next, course) => (.done, course)
  | other => other

/-- Round after round, for at most the given number of them. -/
def loopTo (round : Act) : Nat → Act
  | 0, course => (.spent, course)
  | more + 1, course =>
    match course.rounds with
    | 0 => (.spent, course)
    | rounds + 1 =>
      match settle (round { course with rounds := rounds }) with
      | (.done, course) => loopTo round more course
      | (.leave, course) => (.done, course)
      | other => other

/-- Round after round, until one leaves the loop or no more may be started. -/
def loop (round : Act) : Act := fun course => loopTo round (course.rounds + 1) course

end Act

/-! ## Scripts -/

/-- What decides about a suite. -/
inductive Guard where
  | always
  | holds (call : Call)
  | fails (call : Call)
  deriving DecidableEq

mutual
/-- A statement of a script. -/
inductive Step where
  | call (call : Call)
  | choose (guard : Guard) (body : List Step) (rest : Rest)
  | loop (guard : Guard) (body : List Step)
  | pass
  | leave
  | next
  | ret (value : Option Call)

/-- What follows the first suite of a choice. -/
inductive Rest where
  | nothing
  | otherwise (body : List Step)
  | choose (guard : Guard) (body : List Step) (rest : Rest)
end

/-- Goes on with one act or the other. -/
def Guard.test (oracle : Oracle) (guard : Guard) (yes no : Act) : Act :=
  match guard with
  | .always => yes
  | .holds call => Act.ask oracle call fun answer => if answer then yes else no
  | .fails call => Act.ask oracle call fun answer => if answer then no else yes

/-- Returns, with the answer to a call if there is one. -/
def Act.ret (oracle : Oracle) (value : Option Call) : Act :=
  match value with
  | none => ends (.returned none)
  | some call => ask oracle call fun answer => ends (.returned (some answer))

mutual
/-- What a statement of a script does. -/
def Step.run (oracle : Oracle) : Step → Act
  | .call call => Act.ask oracle call fun _ => Act.ends .done
  | .choose guard body rest => guard.test oracle (Step.runAll oracle body) (rest.run oracle)
  | .loop guard body => Act.loop (guard.test oracle (Step.runAll oracle body) (Act.ends .leave))
  | .pass => Act.ends .done
  | .leave => Act.ends .leave
  | .next => Act.ends .next
  | .ret value => Act.ret oracle value

/-- What is done where the first guard of a choice does not hold. -/
def Rest.run (oracle : Oracle) : Rest → Act
  | .nothing => Act.ends .done
  | .otherwise body => Step.runAll oracle body
  | .choose guard body rest => guard.test oracle (Step.runAll oracle body) (rest.run oracle)

/-- What a script does. -/
def Step.runAll (oracle : Oracle) : List Step → Act
  | [] => Act.ends .done
  | step :: steps => (step.run oracle).andThen (Step.runAll oracle steps)
end

end Interlingua
