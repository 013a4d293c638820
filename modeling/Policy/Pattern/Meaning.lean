import Policy.Pattern.Matcher

namespace Policy.Pattern

/-- A set that is told by ASCII ranges. -/
def CharSet.ofRanges (ranges : List (Char × Char)) : CharSet :=
  ranges.foldr (fun (low, high) s => .either (.range low high) s) .none

def Shorthand.charSet (wide : Bool) : Shorthand → CharSet
  | digit => if wide then .digit else .range '0' '9'
  | blank => if wide then .blank else .ofRanges [('\t', '\r'), (' ', ' ')]
  | word => if wide then .word else .ofRanges [('0', '9'), ('A', 'Z'), ('_', '_'), ('a', 'z')]

/-- The set with its variants in case, where case is ignored. -/
def Flags.folded (flags : Flags) (s : CharSet) : CharSet :=
  if flags.ignoreCase then .fold flags.wide s else s

/-- The set or its complement. Only with wide characters there are complements, since all others
would go beyond the characters that are then known. -/
def Flags.negated (flags : Flags) (negated : Bool) (s : CharSet) : Option CharSet :=
  if negated then if flags.wide then some (.not s) else none else some s

def SetOp.apply : SetOp → CharSet → CharSet → CharSet
  | both, s, t => .both s t
  | minus, s, t => .both s (.not t)
  | differ, s, t => .either (.both s (.not t)) (.both t (.not s))

mutual

/-- The characters that an item in brackets stands for. -/
def SetItem.charSet (flags : Flags) : SetItem → Option CharSet
  | range low high => if flags.wide || high.toNat < 128 then some (.range low high) else none
  | shorthand s negated => flags.negated negated (s.charSet flags.wide)
  | posix ranges negated => flags.negated negated (flags.folded (.ofRanges ranges))
  | property p negated =>
    if flags.wide then flags.negated negated (flags.folded (.property p)) else none
  | bracket negated inner => do
    let s ← inner.charSet flags
    flags.negated negated (flags.folded s)
  | union items => SetItem.charSets flags items
  | combine op lhs rhs => do
    let s ← lhs.charSet flags
    let t ← rhs.charSet flags
    pure (op.apply (flags.folded s) (flags.folded t))

def SetItem.charSets (flags : Flags) : List SetItem → Option CharSet
  | [] => some .none
  | item :: items => do
    let s ← item.charSet flags
    let t ← SetItem.charSets flags items
    pure (.either s t)

end

/-- Any character, or any that does not end a line. -/
def Flags.dot (flags : Flags) : CharSet :=
  if flags.dotAll then .not .none
  else if flags.crlf then .not (.either (.range '\n' '\n') (.range '\r' '\r'))
  else .not (.range '\n' '\n')

def Anchor.look (flags : Flags) : Anchor → Look
  | lineStart => if flags.multiLine then .lineStart flags.crlf else .textStart
  | lineEnd => if flags.multiLine then .lineEnd flags.crlf else .textEnd
  | textStart => .textStart
  | textEnd => .textEnd
  | wordEdge => .wordEdge flags.wide
  | noWordEdge => .noWordEdge flags.wide
  | wordStart => .wordStart flags.wide
  | wordEnd => .wordEnd flags.wide
  | wordStartHalf => .wordStartHalf flags.wide
  | wordEndHalf => .wordEndHalf flags.wide

mutual

/-- The matcher of a pattern under the given switches, and the switches behind it. A change of
switches holds to the end of the group around it. -/
def Node.matcher (flags : Flags) : Node → Option (Matcher × Flags)
  | empty => some (.empty, flags)
  | Node.flags change => some (.empty, flags.apply change)
  | literal c => do
    let s ← SetItem.charSet flags (.range c c)
    pure (.one (flags.folded s), flags)
  | dot => if flags.wide then some (.one flags.dot, flags) else none
  | anchor a => some (.look (a.look flags), flags)
  | set item => do
    let s ← item.charSet flags
    pure (.one s, flags)
  | group change inner => do
    let (p, _) ← inner.matcher (flags.apply change)
    pure (p, flags)
  | repeated inner least most => do
    let (p, flags) ← inner.matcher flags
    pure (p.repetition least most, flags)
  | seq nodes => Node.sequence flags nodes
  | alt nodes => Node.choice flags nodes

def Node.sequence (flags : Flags) : List Node → Option (Matcher × Flags)
  | [] => some (.empty, flags)
  | node :: nodes => do
    let (p, flags) ← node.matcher flags
    let (q, flags) ← Node.sequence flags nodes
    pure (.seq p q, flags)

def Node.choice (flags : Flags) : List Node → Option (Matcher × Flags)
  | [] => some (.one .none, flags)
  | node :: nodes => do
    let (p, flags) ← node.matcher flags
    let (q, flags) ← Node.choice flags nodes
    pure (.alt p q, flags)

end

end Policy.Pattern
