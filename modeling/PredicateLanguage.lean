import PredicateLanguage.Main
import PredicateLanguage.Proofs.Atomicity
import PredicateLanguage.Proofs.Calls
import PredicateLanguage.Proofs.CanonicalSets
import PredicateLanguage.Proofs.Composition
import PredicateLanguage.Proofs.Dependence
import PredicateLanguage.Proofs.Diagnostics
import PredicateLanguage.Proofs.EventStreams
import PredicateLanguage.Proofs.FewestParentheses
import PredicateLanguage.Proofs.JsonForms
import PredicateLanguage.Proofs.JsonRoundTrip
import PredicateLanguage.Proofs.Layout
import PredicateLanguage.Proofs.Occurrences
import PredicateLanguage.Proofs.ProbeRuns
import PredicateLanguage.Proofs.RecursiveChains
import PredicateLanguage.Proofs.RoundTrip
import PredicateLanguage.Proofs.Runs
import PredicateLanguage.Proofs.ScannerRuns
import PredicateLanguage.Proofs.Semantics
import PredicateLanguage.Proofs.Thresholds
import PredicateLanguage.Proofs.UnboundNames
import PredicateLanguage.Proofs.WordsAndSymbols
