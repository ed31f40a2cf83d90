import TemplateLang.Direction.Folding
import TemplateLang.Message.Insertion
import TemplateLang.Name.TemplateSet
import TemplateLang.Prepare
import TemplateLang.Target.Generation
import TemplateLang.Text.UpperCase
import TemplateLang.Tree.Dump
import TemplateLang.Render.Renderer
import TemplateLang.Compile
import TemplateLang.File.Memory
import TemplateLang.Main
import TemplateLang.Proofs.Direction.Locale
import TemplateLang.Proofs.Directive.Truth
import TemplateLang.Proofs.Escaping.EscapedCut
import TemplateLang.Proofs.Escaping.LaterSteps
import TemplateLang.Proofs.Escaping.Lines
import TemplateLang.Proofs.Escaping.Percent
import TemplateLang.Proofs.Escaping.Print
import TemplateLang.Proofs.Escaping.Stable
import TemplateLang.Proofs.Escaping.Truncation
import TemplateLang.Proofs.Java.Linking
import TemplateLang.Proofs.Java.Number
import TemplateLang.Proofs.JavaScript.Declarations
import TemplateLang.Proofs.JavaScript.Expression
import TemplateLang.Proofs.Message.Placeholder
import TemplateLang.Proofs.Message.WellShaped
import TemplateLang.Proofs.Name.Checker
import TemplateLang.Proofs.Render.Folding
import TemplateLang.Proofs.Render.Localization
import TemplateLang.Proofs.Render.Reads
import TemplateLang.Proofs.Render.Termination
import TemplateLang.Proofs.Scope.Return
import TemplateLang.Proofs.Scope.Session
import TemplateLang.Proofs.Target.Literal
import TemplateLang.Proofs.Target.Unlisted
import TemplateLang.Proofs.Target.Writing
import TemplateLang.Proofs.Tree.Faithful
import TemplateLang.Proofs.Tree.FreshCopy
import TemplateLang.Proofs.Tree.Insertion
import TemplateLang.Proofs.Tree.Replacement
import TemplateLang.Proofs.Value.Conversion
import TemplateLang.Proofs.Value.Equality
