import Policy.Proofs.Compiled
import Policy.Proofs.Document.Conforming
import Policy.Proofs.Document.Printed
import Policy.Proofs.Document.Shapes
import Policy.Proofs.Source.Printed.RuleSet

namespace Policy.Document

open Schema

/-- The document of what a policy text can express conforms to the schema. -/
theorem conforms_writeRuleSet {set : RuleSet String} (h : set.WellFormed) :
    Conforms (writeRuleSet set) := by
  have hdistinct := Json.distinct_of_plain _ (plain_writeRuleSet set)
  exact (check_eq_nil_iff hdistinct).mp (check_writeRuleSet h)

/-- Whatever text is taken for a policy, its document conforms to the schema, and so does the
document of the linked policy with its names put back: each node takes one form of its family, has
no other members, and all names are names to the schema. -/
theorem documents_of_policies_conform (file text : String) :
    (∀ set, Source.ruleSetOf text = .ok set →
      Conforms (writeRuleSet set) ∧ check (writeRuleSet set) = []) ∧
    ∀ linked, compile file text = .ok linked →
      Conforms (writeRuleSet linked.byName) ∧ check (writeRuleSet linked.byName) = [] := by
  constructor
  · intro set hset
    have hw := Source.wellFormed_of_ruleSetOf hset
    exact ⟨conforms_writeRuleSet hw, check_writeRuleSet hw⟩
  · intro linked hlinked
    have hw := wellFormed_byName_of_compile hlinked
    exact ⟨conforms_writeRuleSet hw, check_writeRuleSet hw⟩

/-- A policy that asks for the rank of a user. -/
def rankAsked {α : Type} (user rank : α) : RuleSet α where
  attributes :=
    [⟨"user", .request "user"⟩, ⟨"rank", .rest "http://ranks" .get [("of", user), ("at", user)]⟩]
  rules :=
    [.branch (.greater (.coerce (.attr rank) .number) (.number ⟨-3, by decide⟩))
      (.oneOf [.always .permit, .never]) (.always .deny)]

theorem rankAsked_conforms :
    Source.ruleSetOf (Source.print (rankAsked "user" "rank")) = .ok (rankAsked "user" "rank") ∧
      compile "rank.policy" (Source.print (rankAsked "user" "rank")) = .ok (rankAsked 0 1) ∧
      Conforms (writeRuleSet (rankAsked "user" "rank")) ∧
      Conforms (writeRuleSet (rankAsked 0 1).byName) := by
  have hread : Source.ruleSetOf (Source.print (rankAsked "user" "rank")) =
      .ok (rankAsked "user" "rank") := Source.ruleSetOf_print _ (by decide) (by decide)
  have hcompile : compile "rank.policy" (Source.print (rankAsked "user" "rank")) =
      .ok (rankAsked 0 1) := Source.compile_print _ (by decide) (by decide) (by rfl)
  obtain ⟨hsource, hlinked⟩ :=
    documents_of_policies_conform "rank.policy" (Source.print (rankAsked "user" "rank"))
  exact ⟨hread, hcompile, (hsource _ hread).1, (hlinked _ hcompile).1⟩

end Policy.Document
