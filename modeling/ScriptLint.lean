import ScriptLint.Config.Catalogue
import ScriptLint.Lint.Source
import ScriptLint.Survey
import ScriptLint.Types.Render
import ScriptLint.Proofs.SortedBlocks
import ScriptLint.Proofs.PatchedText
import ScriptLint.Proofs.StreamedPass
import ScriptLint.Proofs.UnionOfFixes
import ScriptLint.Proofs.TemplateScanner
import ScriptLint.Proofs.TemplateElements
import ScriptLint.Proofs.WrittenTemplates
import ScriptLint.Proofs.InlinedSlots
import ScriptLint.Proofs.TemplatePass
import ScriptLint.Proofs.EscapeReader
import ScriptLint.Proofs.EscapeSeams
import ScriptLint.Proofs.MergedText
import ScriptLint.Proofs.BuiltTypes
import ScriptLint.Proofs.TypeValues
import ScriptLint.Proofs.StringTest
import ScriptLint.Proofs.StackedWalk
import ScriptLint.Proofs.RuleRuns
import ScriptLint.Proofs.FunctionFrames
import ScriptLint.Proofs.SlotEdits
import ScriptLint.Proofs.ResolvedTypes
import ScriptLint.Proofs.CleanRuns
import ScriptLint.Proofs.FixLoop
import ScriptLint.Proofs.RuleIsolation
import ScriptLint.Proofs.TidyTypes
import ScriptLint.Proofs.InferredOperators
import ScriptLint.Proofs.ReplacedTemplates
import ScriptLint.Proofs.GrammarLevels
import ScriptLint.Proofs.BigIntegerText
import ScriptLint.Proofs.WrittenTypes
import ScriptLint.Proofs.OptionalParameters
import ScriptLint.Proofs.CalledTypes
import ScriptLint.Proofs.BuiltInNames
import ScriptLint.Proofs.ReportedFunctions
import ScriptLint.Proofs.RefinedNodes
import ScriptLint.Proofs.RelaxedOptions
import ScriptLint.Proofs.AddedTypes
import ScriptLint.Proofs.BareTrees
import ScriptLint.Proofs.ReturnChains
import ScriptLint.Proofs.ConflictingEdits
import ScriptLint.Proofs.PassAccounts
import ScriptLint.Proofs.ResolvedParameters
import ScriptLint.Proofs.CarriedBrace
import ScriptLint.Proofs.ComposedTypes
import ScriptLint.Proofs.RepeatedMembers
import ScriptLint.Proofs.ConfigEntries
import ScriptLint.Proofs.AcceptedConfigs
import ScriptLint.Proofs.LastEntries
import ScriptLint.Proofs.OptionSchemas
import ScriptLint.Proofs.EscapedText
import ScriptLint.Proofs.RegularExpressionText
import ScriptLint.Proofs.RoundingIntervals
import ScriptLint.Proofs.ShortestNumerals
import ScriptLint.Proofs.NumberTexts
import ScriptLint.Proofs.ArrowHeads
import ScriptLint.Proofs.BindingPatterns
import ScriptLint.Proofs.TypeRecords
