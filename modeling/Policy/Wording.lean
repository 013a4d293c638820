namespace Policy

/-- What keeps a call from an answer, with what the words for it can depend on in a run. -/
inductive Trouble where
  | notAddress (text : String)
  | notUserAgent (text : String)
  | unreached (url line : String) (content : Option String)
  | brokenOff (url line : String) (content : Option String)
  deriving DecidableEq

/-- What libraries say of why they refuse something. Messages end in these words, and nothing is
assumed of them. A run is over with the first text that is no document or no settings file, so that
there is one text for each of the two. -/
class Wording where
  pattern : (pattern : String) → String
  transport : Trouble → String
  document : String
  settings : String

/-- Libraries that say nothing, for where their words are not looked at. -/
instance (priority := low) Wording.silent : Wording := ⟨fun _ => "", fun _ => "", "", ""⟩

end Policy
