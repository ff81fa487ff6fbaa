/-
What a document type declaration means for the tree.

Old declarations, and pages without any, ask for the layout of old browsers.
The one consequence here is that a table may then stand inside a paragraph.
-/
import StyleInliner.Html.Token
import StyleInliner.Text.LetterCase

namespace StyleInliner.Html

/-- Public identifiers that ask for the old layout. -/
def oldPublicIds : List String :=
  ["-//w3o//dtd w3 html strict 3.0//en//", "-/w3c/dtd html 4.0 transitional/en", "html"]

/-- System identifiers that ask for the old layout. -/
def oldSystemIds : List String :=
  ["http://www.ibm.com/data/dtd/v11/ibmxhtml1-transitional.dtd"]

/-- What public identifiers start with that ask for the old layout. -/
def oldPublicStarts : List String :=
  ["-//as//dtd html 3.0 aswedit + extensions//",
    "-//advasoft ltd//dtd html 3.0 aswedit + extensions//",
    "-//ietf//dtd html 2.0 level 1//",
    "-//ietf//dtd html 2.0 level 2//",
    "-//ietf//dtd html 2.0 strict level 1//",
    "-//ietf//dtd html 2.0 strict level 2//",
    "-//ietf//dtd html 2.0 strict//",
    "-//ietf//dtd html 2.0//",
    "-//ietf//dtd html 2.1e//",
    "-//ietf//dtd html 3.0//",
    "-//ietf//dtd html 3.2 final//",
    "-//ietf//dtd html 3.2//",
    "-//ietf//dtd html 3//",
    "-//ietf//dtd html level 0//",
    "-//ietf//dtd html level 1//",
    "-//ietf//dtd html level 2//",
    "-//ietf//dtd html level 3//",
    "-//ietf//dtd html strict level 0//",
    "-//ietf//dtd html strict level 1//",
    "-//ietf//dtd html strict level 2//",
    "-//ietf//dtd html strict level 3//",
    "-//ietf//dtd html strict//",
    "-//ietf//dtd html//",
    "-//metrius//dtd metrius presentational//",
    "-//microsoft//dtd internet explorer 2.0 html strict//",
    "-//microsoft//dtd internet explorer 2.0 html//",
    "-//microsoft//dtd internet explorer 2.0 tables//",
    "-//microsoft//dtd internet explorer 3.0 html strict//",
    "-//microsoft//dtd internet explorer 3.0 html//",
    "-//microsoft//dtd internet explorer 3.0 tables//",
    "-//netscape comm. corp.//dtd html//",
    "-//netscape comm. corp.//dtd strict html//",
    "-//o'reilly and associates//dtd html 2.0//",
    "-//o'reilly and associates//dtd html extended 1.0//",
    "-//o'reilly and associates//dtd html extended relaxed 1.0//",
    "-//sq//dtd html 2.0 hotmetal + extensions//",
    "-//softquad software//dtd hotmetal pro 6.0::19990601::extensions to html 4.0//",
    "-//softquad//dtd hotmetal pro 4.0::19971010::extensions to html 4.0//",
    "-//spyglass//dtd html 2.0 extended//",
    "-//sun microsystems corp.//dtd hotjava html//",
    "-//sun microsystems corp.//dtd hotjava strict html//",
    "-//w3c//dtd html 3 1995-03-24//",
    "-//w3c//dtd html 3.2 draft//",
    "-//w3c//dtd html 3.2 final//",
    "-//w3c//dtd html 3.2//",
    "-//w3c//dtd html 3.2s draft//",
    "-//w3c//dtd html 4.0 frameset//",
    "-//w3c//dtd html 4.0 transitional//",
    "-//w3c//dtd html experimental 19960712//",
    "-//w3c//dtd html experimental 970421//",
    "-//w3c//dtd w3 html//",
    "-//w3o//dtd w3 html 3.0//",
    "-//webtechs//dtd mozilla html 2.0//",
    "-//webtechs//dtd mozilla html//"]

/-- What public identifiers start with that ask for the old layout unless a system identifier
stands beside them. -/
def oldAloneStarts : List String :=
  ["-//w3c//dtd html 4.01 frameset//", "-//w3c//dtd html 4.01 transitional//"]

/-- Whether a text starts with one of several others. -/
def startsWithAny (starts : List String) (s : String) : Bool :=
  starts.any fun start => start.toList.isPrefixOf s.toList

/-- Whether a declaration asks for the old layout. -/
def DoctypeToken.asksForOldLayout (d : DoctypeToken) : Bool :=
  d.faulty || d.name != some "html" ||
    (match d.publicId.map Text.lower with
      | some id =>
        oldPublicIds.contains id || startsWithAny oldPublicStarts id ||
          (d.systemId.isNone && startsWithAny oldAloneStarts id)
      | none => false) ||
    (match d.systemId.map Text.lower with
      | some id => oldSystemIds.contains id
      | none => false)

end StyleInliner.Html
