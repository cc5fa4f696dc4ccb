import ConferenceLedger.Log.Rule

/-!
# Log filters

A filter has rules. Of the rules for a line the most specific counts: the one with the longest
text, of those one that asks for a field, and of equal ones the last. Without a rule a line is
not shown.
-/

namespace ConferenceLedger

/-- The rules of a filter. -/
abbrev LogFilter := List LogRule

namespace LogFilter

/-- The filter that shows what happened and what is not as it should be. -/
def default : LogFilter := [⟨"", false, none, LogLevel.info.rank⟩]

/-- The filter whose rules a text writes with commas between them, and the default if one of
them is malformed. There is none if a part of a rule before begins or ends inside a character. -/
def ofText? (s : String) : Option LogFilter :=
  match ((s.splitOn ",").filter (· ≠ "")).mapM LogRule.ofText with
  | .ok f => some f
  | .error .malformed => some default
  | .error .insideCharacter => none

/-- The more specific of two rules, the later one if they are equally specific. -/
def prefer (best : Option LogRule) (r : LogRule) : Option LogRule :=
  match best with
  | some b => if r.reaches b then some r else some b
  | none => some r

/-- The rule that counts for a line of a source. -/
def rule? (source : String) (f : LogFilter) (l : LogLine) : Option LogRule :=
  (f.filter (LogRule.covers source l)).foldl prefer none

/-- Whether a line of a source is shown. -/
def shows (source : String) (f : LogFilter) (l : LogLine) : Bool :=
  (f.rule? source l).any fun r => l.level.rank ≤ r.threshold

end LogFilter

end ConferenceLedger
