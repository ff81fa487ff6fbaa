import StyleInliner.CommandLine
import StyleInliner.Css.Comment
import StyleInliner.Css.Declaration
import StyleInliner.Css.Declaration.Parser
import StyleInliner.Css.Dictionary
import StyleInliner.Css.Error
import StyleInliner.Css.KnownTag
import StyleInliner.Css.Printer
import StyleInliner.Css.Rule
import StyleInliner.Css.Rule.Parser
import StyleInliner.Css.Selector
import StyleInliner.Css.Selector.Parser
import StyleInliner.Css.StyleSheet
import StyleInliner.Dom.Document
import StyleInliner.Dom.Element
import StyleInliner.Dom.Forest
import StyleInliner.Dom.Index
import StyleInliner.Dom.Insertion
import StyleInliner.Dom.Traversal
import StyleInliner.Dom.Tree
import StyleInliner.Error
import StyleInliner.Files
import StyleInliner.Files.Tree
import StyleInliner.Grouping
import StyleInliner.Html.CharacterReference
import StyleInliner.Html.CharacterReference.Names
import StyleInliner.Html.Characters
import StyleInliner.Html.Construction.Body
import StyleInliner.Html.Construction.Ending
import StyleInliner.Html.Construction.Foreign
import StyleInliner.Html.Construction.Formatting
import StyleInliner.Html.Construction.Head
import StyleInliner.Html.Construction.Select
import StyleInliner.Html.Construction.State
import StyleInliner.Html.Construction.Step
import StyleInliner.Html.Construction.Table
import StyleInliner.Html.Doctype
import StyleInliner.Html.Foreign
import StyleInliner.Html.Parser
import StyleInliner.Html.TagSet
import StyleInliner.Html.Token
import StyleInliner.Html.Token.Lexer
import StyleInliner.Html.Writer
import StyleInliner.Inline.Application
import StyleInliner.Inline.Document
import StyleInliner.Inline.Options
import StyleInliner.Inline.Run
import StyleInliner.Inline.Stylesheet
import StyleInliner.Inline.TableConversion
import StyleInliner.Main
import StyleInliner.Text.Blank
import StyleInliner.Text.LetterCase
import StyleInliner.Proofs.Css.Declaration
import StyleInliner.Proofs.Css.Comment
import StyleInliner.Proofs.Css.Selector
import StyleInliner.Proofs.Css.Rule
import StyleInliner.Proofs.Css.RoundTrip
import StyleInliner.Proofs.Css.Joining
import StyleInliner.Proofs.Css.Dictionary
import StyleInliner.Proofs.Dom.Forest
import StyleInliner.Proofs.Dom.Traversal
import StyleInliner.Proofs.Inline.Schedule
import StyleInliner.Proofs.Inline.Cascade
import StyleInliner.Proofs.Dom.Element
import StyleInliner.Proofs.Inline.Application
import StyleInliner.Proofs.Inline.OwnStyle
import StyleInliner.Proofs.Inline.TableConversion
import StyleInliner.Proofs.Inline.Conversion
import StyleInliner.Proofs.Inline.Directive
import StyleInliner.Proofs.Dom.Operation
import StyleInliner.Proofs.Dom.Preorder
import StyleInliner.Proofs.Inline.ConvertedWalk
import StyleInliner.Proofs.Inline.Content
import StyleInliner.Proofs.Inline.ClassRemoval
import StyleInliner.Proofs.Inline.Sheets
import StyleInliner.Proofs.Css.SelectorGrammar
import StyleInliner.Proofs.Css.BlockGrammar
import StyleInliner.Proofs.Css.DictionaryRoundTrip
import StyleInliner.Proofs.Inline.Effect
import StyleInliner.Proofs.Css.CommentRemoval
import StyleInliner.Proofs.Inline.Distribution
import StyleInliner.Proofs.Inline.Reapplication
import StyleInliner.Proofs.Inline.Replacement
import StyleInliner.Proofs.Inline.AttributeOrder
import StyleInliner.Proofs.Css.Classification
import StyleInliner.Proofs.Css.DeclarationRoundTrip
import StyleInliner.Proofs.Inline.InPlace
import StyleInliner.Proofs.Css.Comparison
import StyleInliner.Proofs.Dom.Placement
import StyleInliner.Proofs.Inline.FaultOrder
import StyleInliner.Proofs.Html.StartTag
import StyleInliner.Proofs.Inline.AttributeNames
import StyleInliner.Proofs.Text.MaximalRun
import StyleInliner.Proofs.Inline.CellPadding
import StyleInliner.Proofs.Dom.DocumentOrder
import StyleInliner.Proofs.Html.Unambiguous
import StyleInliner.Proofs.Dom.Tree
import StyleInliner.Proofs.Html.Pieces
import StyleInliner.Proofs.Inline.Page
import StyleInliner.Proofs.Inline.Fragment
import StyleInliner.Proofs.Css.Chaining
import StyleInliner.Proofs.Dom.AttributeMap
import StyleInliner.Proofs.Dom.TextInsertion
